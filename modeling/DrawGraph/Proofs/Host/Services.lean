import DrawGraph.Host.Basic
import Mathlib.Algebra.Group.Nat.Defs
import Mathlib.Data.List.Basic

/-!
# What a host sets up

The shader library of a host finds the first shader of its configuration, with the variables with
which that path was declared last. Its asset store finds the first model, and every primitive.
-/

namespace DrawGraph

/-- Below the sign bit an index names what stands at its place. -/
theorem atIndex?_ofNat {α : Type} (xs : List α) {k : Nat} (hk : k < 2 ^ 31) :
    0 ≤ Int32.ofNat k ∧ atIndex? xs (.ofNat k) = xs[k]? := by
  have hint : (Int32.ofNat k).toInt = k := Int32.toInt_ofNat_of_lt hk
  have hnonneg : 0 ≤ Int32.ofNat k := by
    rw [Int32.le_iff_toInt_le, hint]
    exact Int.natCast_nonneg k
  refine ⟨hnonneg, ?_⟩
  rw [atIndex?, if_neg (Int32.not_lt.2 hnonneg), hint, Int.toNat_natCast]

namespace ShaderLibrary

def paths (l : ShaderLibrary) : List String := l.shaders.map (·.path)

variable {l : ShaderLibrary} {path path' : String} {vars vars' : List ShaderVar} {i : Nat}

/-- The path has an index, at which the library holds these variables. -/
structure Knows (l : ShaderLibrary) (path : String) (i : Nat) (vars : List ShaderVar) : Prop where
  index : l.indexOf? path = some i
  vars : (l.shaders[i]?).map (·.vars) = some vars

theorem indexOf?_eq (l : ShaderLibrary) (path : String) :
    l.indexOf? path = l.paths.findIdx? (· = path) := by
  rw [paths, List.findIdx?_map]
  rfl

/-- Shaders that are changed one by one keep their paths if the change keeps the path. -/
theorem paths_modify {f : Shader → Shader} (hf : ∀ s, (f s).path = s.path) (l : ShaderLibrary)
    (j : Nat) : ({ l with shaders := l.shaders.modify j f } : ShaderLibrary).paths = l.paths := by
  refine List.ext_getElem? fun k => ?_
  rw [paths, paths, List.getElem?_map, List.getElem?_modify, List.getElem?_map]
  cases l.shaders[k]? with
  | none => rfl
  | some s => by_cases hk : j = k <;> simp [hk, hf]

theorem path_of_indexOf? (h : l.indexOf? path = some i) :
    (l.shaders[i]?).map (·.path) = some path := by
  obtain ⟨hlt, hpath, _⟩ := List.findIdx?_eq_some_iff_getElem.1 h
  rw [List.getElem?_eq_getElem hlt, Option.map_some, of_decide_eq_true hpath]

/-- A path keeps its index, and its variables as long as it is not declared anew. -/
theorem Knows.declare (h : l.Knows path i vars) (path' : String) (vars' : List ShaderVar) :
    (l.declare path' vars').2.Knows path i (if path' = path then vars' else vars) := by
  have hpath := path_of_indexOf? h.index
  unfold ShaderLibrary.declare
  split
  · next j hj =>
    have hpath' := path_of_indexOf? hj
    have hsame : j = i ↔ path' = path := by
      constructor
      · rintro rfl
        exact Option.some.inj (hpath'.symm.trans hpath)
      · rintro rfl
        exact Option.some.inj (hj.symm.trans h.index)
    constructor
    · have hpaths := paths_modify (f := fun s => { s with vars := vars' }) (fun _ => rfl) l j
      rw [indexOf?_eq, hpaths, ← indexOf?_eq]
      exact h.index
    · rw [List.getElem?_modify]
      obtain ⟨s, hs, rfl⟩ := Option.map_eq_some_iff.1 h.vars
      rw [hs]
      by_cases hpaths : path' = path <;> simp [hsame, hpaths]
  · next hnone =>
    have hne : path' ≠ path := by
      rintro rfl
      rw [h.index] at hnone
      cases hnone
    rw [if_neg hne]
    obtain ⟨hlt, _⟩ := List.findIdx?_eq_some_iff_getElem.1 h.index
    constructor
    · rw [indexOf?, List.findIdx?_append, show List.findIdx? _ l.shaders = some i from h.index]
      rfl
    · rw [List.getElem?_append_left hlt]
      exact h.vars

/-- Of several declarations of a path the last one counts. -/
theorem Knows.foldl_declare (h : l.Knows path i vars) (entries : List Config.ShaderEntry) :
    (entries.foldl (fun l s => (l.declare s.path s.vars).2) l).Knows path i
      (((entries.reverse.find? (·.path = path)).map (·.vars)).getD vars) := by
  induction entries generalizing l vars with
  | nil => exact h
  | cons s entries ih =>
      have hrest := ih (h.declare s.path s.vars)
      rw [List.foldl_cons, List.reverse_cons, List.find?_append]
      cases hlast : entries.reverse.find? (·.path = path) with
      | some last =>
          rw [hlast] at hrest
          exact hrest
      | none =>
          rw [hlast] at hrest
          by_cases hs : s.path = path <;> simpa [hs] using hrest

/-- The first path that is declared has an index of one at most. -/
theorem knows_declare (path : String) (vars : List ShaderVar) :
    ∃ i ≤ 1, (({} : ShaderLibrary).declare path vars).2.Knows path i vars := by
  by_cases h : "default" = path
  · subst h
    exact ⟨0, by omega, rfl, rfl⟩
  · have hindex : ({} : ShaderLibrary).indexOf? path = none := by simp [indexOf?, h]
    refine ⟨1, Nat.le_refl 1, ?_, ?_⟩ <;> rw [declare, hindex]
    · simp [indexOf?, List.findIdx?_cons, h]
    · rfl

theorem Knows.load (h : l.Knows path i vars) : l.load path = .ok (.ofNat i) := by
  rw [ShaderLibrary.load, h.index]

theorem Knows.vars_eq (h : l.Knows path i vars) (hi : i < 2 ^ 31) :
    0 ≤ Int32.ofNat i ∧ l.vars (.ofNat i) = .ok vars := by
  obtain ⟨hnonneg, hat⟩ := atIndex?_ofNat l.shaders hi
  obtain ⟨s, hs, rfl⟩ := Option.map_eq_some_iff.1 h.vars
  refine ⟨hnonneg, ?_⟩
  rw [ShaderLibrary.vars, hat, hs]

end ShaderLibrary

namespace AssetStore

theorem foldl_declare (paths : List String) (a : AssetStore) : ∃ declared,
    paths.foldl declare a = { a with declared } ∧ ∀ p ∈ paths, p ∈ declared := by
  have hkeeps : ∀ (paths : List String) (a : AssetStore), ∃ declared,
      paths.foldl declare a = { a with declared } ∧ a.declared ⊆ declared ∧
        ∀ p ∈ paths, p ∈ declared := by
    intro paths
    induction paths with
    | nil => exact fun a => ⟨a.declared, rfl, fun _ h => h, fun _ h => nomatch h⟩
    | cons path paths ih =>
        intro a
        obtain ⟨declared, heq, hold, hnew⟩ := ih (a.declare path)
        have hpath : path ∈ (a.declare path).declared ∧
            a.declared ⊆ (a.declare path).declared ∧
              ∃ declared, a.declare path = { a with declared } := by
          unfold declare
          split
          · next hmem => exact ⟨hmem, fun _ h => h, _, rfl⟩
          · exact ⟨by simp, by simp, _, rfl⟩
        obtain ⟨hmem, hsub, before, hbefore⟩ := hpath
        refine ⟨declared, ?_, List.Subset.trans hsub hold, List.forall_mem_cons.2 ⟨hold hmem, hnew⟩⟩
        rw [List.foldl_cons, heq, hbefore]
  obtain ⟨declared, heq, _, hnew⟩ := hkeeps paths a
  exact ⟨declared, heq, hnew⟩

/-- The first model that is loaded gets the first index. -/
theorem loadModel_first {a : AssetStore} {path : String} (hmodels : a.models = [])
    (hpath : path ∈ a.declared) : ∃ a', a.loadModel path = .ok (0, a') := by
  rw [loadModel, place, hmodels, List.findIdx?_nil]
  dsimp only
  rw [if_pos hpath]
  exact ⟨_, rfl⟩

theorem loadPrimitive_first {a : AssetStore} (hmodels : a.models = [])
    (haccepts : a.refusesPrimitives = false) (shape : PrimitiveShape) :
    ∃ a', a.loadPrimitive shape = .ok (0, a') := by
  rw [loadPrimitive, haccepts, if_neg Bool.false_ne_true]
  refine loadModel_first ?_ ?_ <;> unfold declare <;> split
  · exact hmodels
  · exact hmodels
  · next hmem => exact hmem
  · exact List.mem_append_right _ (List.mem_singleton_self _)

end AssetStore

/-- The variables of the first shader, as it was declared last, that are of a type. -/
def Demo.vars (c : HostConfig) : List (String × BindingType) :=
  match c.shaders.head? with
  | none => []
  | some first =>
    (((c.shaders.reverse.find? (·.path = first.path)).map (·.vars)).getD []).filterMap fun v =>
      (BindingType.ofName? v.typeName).map (v.name, ·)

namespace Host

variable {c : HostConfig} {s : Scene}

theorem shaders_services (c : HostConfig) {first : Config.ShaderEntry}
    (hfirst : c.shaders.head? = some first) : ∃ i ≤ 1, (services c).shaders.Knows first.path i
      (((c.shaders.reverse.find? (·.path = first.path)).map (·.vars)).getD []) := by
  obtain ⟨rest, hshaders⟩ : ∃ rest, c.shaders = first :: rest := by
    cases h : c.shaders with
    | nil => simp [h] at hfirst
    | cons s rest =>
        rw [h] at hfirst
        exact ⟨rest, by rw [Option.some.inj hfirst]⟩
  obtain ⟨i, hi, hknows⟩ := ShaderLibrary.knows_declare first.path first.vars
  refine ⟨i, hi, ?_⟩
  have hall := hknows.foldl_declare rest
  rw [services, hshaders, List.foldl_cons, List.reverse_cons, List.find?_append]
  cases hlast : rest.reverse.find? (·.path = first.path) with
  | some last =>
      rw [hlast] at hall
      exact hall
  | none =>
      rw [hlast] at hall
      simpa using hall

/-- The shader that a configuration names first, or the one for want of any, has an index. -/
theorem resolveAsset_shader (c : HostConfig) : ∃ index : Int32, 0 ≤ index ∧
    ∀ s : Scene, s.services.shaders = (services c).shaders →
      s.resolveAsset .shader (c.shaders.head?.map (·.path)) = (index, s) ∧
        Draw.reflected s index = Demo.vars c := by
  unfold Demo.vars
  cases hfirst : c.shaders.head? with
  | none =>
      have hnil : c.shaders = [] := List.head?_eq_none_iff.1 hfirst
      refine ⟨0, by decide, fun s hs => ?_⟩
      rw [services, hnil] at hs
      constructor
      · rw [Option.map_none, Scene.resolveAsset, hs]
        rfl
      · rw [Draw.reflected, hs]
        rfl
  | some first =>
      obtain ⟨i, hi, hknows⟩ := shaders_services c hfirst
      obtain ⟨hnonneg, hvars⟩ := hknows.vars_eq (Nat.lt_of_le_of_lt hi (by decide))
      refine ⟨.ofNat i, hnonneg, fun s hs => ⟨?_, ?_⟩⟩
      · rw [Option.map_some, Scene.resolveAsset, hs, hknows.load]
      · rw [Draw.reflected, if_neg (Int32.not_lt.2 hnonneg), hs, hvars]

theorem resolveAsset_model {path : String} (hpath : c.models.head? = some path)
    (hs : s.services = services c) : ∃ s', s.resolveAsset .model (some path) = (0, s') := by
  obtain ⟨declared, heq, hmem⟩ := AssetStore.foldl_declare (c.models ++ c.textures) {}
  have hdeclared : path ∈ (services c).assets.declared := by
    rw [services, heq]
    exact hmem path (List.mem_append_left _ (List.mem_of_mem_head? hpath))
  obtain ⟨a, ha⟩ := AssetStore.loadModel_first (by rw [services, heq]) hdeclared
  rw [Scene.resolveAsset, hs, ha]
  exact ⟨_, rfl⟩

theorem resolvePrimitive (hs : s.services = services c) (shape : PrimitiveShape) :
    ∃ s', s.resolvePrimitive shape = (0, s') := by
  obtain ⟨declared, heq, _⟩ := AssetStore.foldl_declare (c.models ++ c.textures) {}
  obtain ⟨a, ha⟩ := AssetStore.loadPrimitive_first (a := (services c).assets)
    (by rw [services, heq]) (by rw [services, heq]) shape
  rw [Scene.resolvePrimitive, hs, ha]
  exact ⟨_, rfl⟩

end Host

end DrawGraph
