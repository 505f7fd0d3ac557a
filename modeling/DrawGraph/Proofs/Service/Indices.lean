import DrawGraph.Proofs.Attempt
import DrawGraph.Proofs.Host.Services
import Mathlib.Data.List.Induction

/-!
# Indices that last

The lists of models, of textures and of shaders only grow at the end, so a path that stands in one
of them at an index stands there ever after. Out of any run of calls on a store or a library each
path that was given an index is given the same one again, and no other path has it.
-/

namespace DrawGraph

/-- A path that is met for the first time is met at the end. -/
theorem findIdx?_concat {paths : List String} {path : String}
    (h : paths.findIdx? (· = path) = none) :
    (paths ++ [path]).findIdx? (· = path) = some paths.length := by
  rw [List.findIdx?_append, h]
  simp

/-- The path is first met in the list at the index. -/
def StandsAt (paths : List String) (path : String) (i : Int32) : Prop :=
  ∃ k, paths.findIdx? (· = path) = some k ∧ i = .ofNat k

namespace StandsAt

variable {paths more : List String} {path path' : String} {i j : Int32}

theorem append (h : StandsAt paths path i) (more : List String) :
    StandsAt (paths ++ more) path i := by
  obtain ⟨k, hk, rfl⟩ := h
  refine ⟨k, ?_, rfl⟩
  rw [List.findIdx?_append, hk]
  rfl

theorem mono (h : StandsAt paths path i) (hpaths : paths <+: more) :
    StandsAt more path i := by
  obtain ⟨rest, rfl⟩ := hpaths
  exact h.append rest

theorem of_new (h : paths.findIdx? (· = path) = none) :
    StandsAt (paths ++ [path]) path (.ofNat paths.length) :=
  ⟨paths.length, findIdx?_concat h, rfl⟩

theorem unique (h : StandsAt paths path i) (h' : StandsAt paths path j) : i = j := by
  obtain ⟨k, hk, rfl⟩ := h
  obtain ⟨k', hk', rfl⟩ := h'
  rw [Option.some.inj (hk.symm.trans hk')]

/-- A short list has at the index the path that stands there. -/
theorem atIndex? (h : StandsAt paths path i) (hlen : paths.length < 2 ^ 31) :
    DrawGraph.atIndex? paths i = some path := by
  obtain ⟨k, hk, rfl⟩ := h
  obtain ⟨hlt, hpath, _⟩ := List.findIdx?_eq_some_iff_getElem.1 hk
  rw [(atIndex?_ofNat paths (Nat.lt_trans hlt hlen)).2, List.getElem?_eq_getElem hlt,
    of_decide_eq_true hpath]

theorem eq_iff (h : StandsAt paths path i) (h' : StandsAt paths path' j)
    (hlen : paths.length < 2 ^ 31) : path = path' ↔ i = j := by
  constructor
  · rintro rfl
    exact h.unique h'
  · rintro rfl
    exact Option.some.inj ((h.atIndex? hlen).symm.trans (h'.atIndex? hlen))

end StandsAt

section Answers

variable {σ γ : Type} {edit : σ → γ → σ} {gives : σ → γ → Option (String × Int32)}
  {paths : σ → List String}

/-- The paths for which calls give an index, each with what it is given, in the order of the
calls. -/
def answers (edit : σ → γ → σ) (gives : σ → γ → Option (String × Int32)) (s : σ) :
    List γ → List (String × Int32)
  | [] => []
  | c :: cs => (gives s c).toList ++ answers edit gives (edit s c) cs

/-- If the list grows with each call and has at the index each path that is given one, then at the
end of a run it has so all that were given one. -/
theorem standsAt_answers (hgrows : ∀ s c, paths s <+: paths (edit s c))
    (hgives : ∀ s c p, gives s c = some p → StandsAt (paths (edit s c)) p.1 p.2) (s : σ)
    (cs : List γ) :
    ∀ p ∈ answers edit gives s cs, StandsAt (paths (cs.foldl edit s)) p.1 p.2 := by
  have hlater (s : σ) (cs : List γ) : paths s <+: paths (cs.foldl edit s) := by
    induction cs generalizing s with
    | nil => exact List.prefix_refl _
    | cons c cs ih => exact (hgrows s c).trans (ih (edit s c))
  induction cs generalizing s with
  | nil => exact fun p hp => nomatch hp
  | cons c cs ih =>
      intro p hp
      rcases List.mem_append.1 hp with hnow | hrest
      · exact (hgives s c p (Option.mem_toList.1 hnow)).mono (hlater (edit s c) cs)
      · exact ih (edit s c) p hrest

end Answers

/-! ## Models and textures -/

namespace AssetStore

/-- What a path is loaded as. -/
inductive Use
  | model | texture
deriving DecidableEq

/-- A call that may change a store. -/
inductive Call
  | declare (path : String)
  | load (use : Use) (path : String)
  | primitive (shape : PrimitiveShape)

variable {a a' : AssetStore} {use : Use} {path : String} {i : Int32}

def paths (use : Use) (a : AssetStore) : List String :=
  match use with
  | .model => a.models
  | .texture => a.textures

def withPaths (use : Use) (paths : List String) (a : AssetStore) : AssetStore :=
  match use with
  | .model => { a with models := paths }
  | .texture => { a with textures := paths }

def load (a : AssetStore) (use : Use) (path : String) : Except AssetError (Int32 × AssetStore) :=
  match use with
  | .model => a.loadModel path
  | .texture => a.loadTexture path

def attempt (a : AssetStore) : Call → Except AssetError AssetStore
  | .declare path => .ok (a.declare path)
  | .load use path => (a.load use path).map Prod.snd
  | .primitive shape => (a.loadPrimitive shape).map Prod.snd

/-- A call that fails leaves the store as it was. -/
def edit (a : AssetStore) (c : Call) : AssetStore := (a.attempt c).toOption.getD a

/-- The path for which a call gives an index of this use, with the index. -/
def gives (use : Use) (a : AssetStore) : Call → Option (String × Int32)
  | .declare _ => none
  | .load use' path =>
      if use' = use then (a.load use path).toOption.map fun r => (path, r.1) else none
  | .primitive shape =>
      if use = .model then (a.loadPrimitive shape).toOption.map fun r => (shape.path, r.1)
      else none

theorem place_eq_ok {loaded loaded' : List String} (h : a.place loaded path = .ok (i, loaded')) :
    loaded <+: loaded' ∧ StandsAt loaded' path i := by
  unfold place at h
  split at h
  · next k hk =>
    cases h
    exact ⟨List.prefix_refl _, k, hk, rfl⟩
  · next hnone =>
    split at h
    · cases h
      exact ⟨List.prefix_append _ _, .of_new hnone⟩
    · cases h

theorem place_of_standsAt {loaded : List String} (h : StandsAt loaded path i) :
    a.place loaded path = .ok (i, loaded) := by
  obtain ⟨k, hk, rfl⟩ := h
  rw [place, hk]

theorem load_eq (a : AssetStore) (use : Use) (path : String) : a.load use path =
    (a.place (a.paths use) path).map fun r => (r.1, a.withPaths use r.2) := by
  cases use with
  | model =>
      rw [load, loadModel, paths]
      cases a.place a.models path <;> rfl
  | texture =>
      rw [load, loadTexture, paths]
      cases a.place a.textures path <;> rfl

@[simp] theorem withPaths_paths (a : AssetStore) (use : Use) :
    a.withPaths use (a.paths use) = a := by
  cases use <;> rfl

theorem paths_withPaths (a : AssetStore) (use use' : Use) (paths : List String) :
    (a.withPaths use paths).paths use' = if use' = use then paths else a.paths use' := by
  cases use <;> cases use' <;> rfl

theorem load_of_standsAt (h : StandsAt (a.paths use) path i) : a.load use path = .ok (i, a) := by
  rw [load_eq, place_of_standsAt h, Except.map, withPaths_paths]

/-- A path that is met for the first time comes in at the end. -/
theorem load_of_new (hnew : (a.paths use).findIdx? (· = path) = none) (h : path ∈ a.declared) :
    a.load use path =
      .ok (.ofNat (a.paths use).length, a.withPaths use (a.paths use ++ [path])) := by
  rw [load_eq, place, hnew]
  dsimp only
  rw [if_pos h]
  rfl

theorem load_of_undeclared (hnew : (a.paths use).findIdx? (· = path) = none)
    (h : path ∉ a.declared) : a.load use path = .error (.notFound path) := by
  rw [load_eq, place, hnew]
  dsimp only
  rw [if_neg h]
  rfl

/-- The lists grow at the end, and primitives stay welcome or unwelcome. -/
structure Grows (a a' : AssetStore) : Prop where
  paths : ∀ use, a.paths use <+: a'.paths use
  refuses : a'.refusesPrimitives = a.refusesPrimitives

theorem Grows.refl (a : AssetStore) : a.Grows a := ⟨fun _ => List.prefix_refl _, rfl⟩

theorem Grows.trans {a'' : AssetStore} (h : a.Grows a') (h' : a'.Grows a'') : a.Grows a'' :=
  ⟨fun use => (h.paths use).trans (h'.paths use), h'.refuses.trans h.refuses⟩

theorem grows_declare (a : AssetStore) (path : String) : a.Grows (a.declare path) := by
  unfold declare
  split
  · exact .refl a
  · exact ⟨fun use => by cases use <;> exact List.prefix_refl _, rfl⟩

theorem load_eq_ok (h : a.load use path = .ok (i, a')) :
    a.Grows a' ∧ StandsAt (a'.paths use) path i := by
  rw [load_eq] at h
  cases hplace : a.place (a.paths use) path with
  | error e => rw [hplace] at h; cases h
  | ok r =>
      rw [hplace] at h
      cases h
      obtain ⟨hgrows, hstands⟩ := place_eq_ok hplace
      refine ⟨⟨fun use' => ?_, by cases use <;> rfl⟩, ?_⟩
      · rw [paths_withPaths]
        split
        · next huse => exact huse ▸ hgrows
        · exact List.prefix_refl _
      · rwa [paths_withPaths, if_pos rfl]

theorem loadPrimitive_eq_ok {shape : PrimitiveShape} (h : a.loadPrimitive shape = .ok (i, a')) :
    a.Grows a' ∧ StandsAt (a'.paths .model) shape.path i := by
  unfold loadPrimitive at h
  split at h
  · cases h
  · have hload : (a.declare shape.path).load .model shape.path = .ok (i, a') := h
    obtain ⟨hgrows, hstands⟩ := load_eq_ok hload
    exact ⟨(grows_declare a _).trans hgrows, hstands⟩

theorem exists_loadPrimitive (h : a.refusesPrimitives = false) (shape : PrimitiveShape) :
    ∃ i a', a.loadPrimitive shape = .ok (i, a') := by
  have hdeclared : shape.path ∈ (a.declare shape.path).declared := by
    unfold declare
    split
    · next hmem => exact hmem
    · exact List.mem_append_right _ (List.mem_singleton_self _)
  rw [loadPrimitive, h, if_neg Bool.false_ne_true, loadModel, place]
  split
  · exact ⟨_, _, rfl⟩
  · rw [if_pos hdeclared]
    exact ⟨_, _, rfl⟩

theorem grows_edit (a : AssetStore) (c : Call) : a.Grows (a.edit c) := by
  cases c with
  | declare path => exact grows_declare a path
  | load use path =>
      rw [edit, attempt]
      cases h : a.load use path with
      | error e => exact .refl a
      | ok r => exact (load_eq_ok h).1
  | primitive shape =>
      rw [edit, attempt]
      cases h : a.loadPrimitive shape with
      | error e => exact .refl a
      | ok r => exact (loadPrimitive_eq_ok h).1

theorem eq_ok_of_given {r : Except AssetError (Int32 × AssetStore)} {p : String × Int32}
    (h : (r.toOption.map fun r => (path, r.1)) = some p) :
    ∃ a', r = .ok (p.2, a') ∧ p.1 = path := by
  cases r with
  | error e => cases h
  | ok r =>
      cases h
      exact ⟨r.2, rfl, rfl⟩

theorem standsAt_gives {c : Call} {p : String × Int32} (h : gives use a c = some p) :
    StandsAt ((a.edit c).paths use) p.1 p.2 := by
  cases c with
  | declare path => cases h
  | load use' path =>
      rw [gives] at h
      split at h
      · next huse =>
        subst huse
        obtain ⟨a', hload, hpath⟩ := eq_ok_of_given h
        rw [edit, attempt, hload, hpath]
        exact (load_eq_ok hload).2
      · cases h
  | primitive shape =>
      rw [gives] at h
      split at h
      · next huse =>
        subst huse
        obtain ⟨a', hload, hpath⟩ := eq_ok_of_given h
        rw [edit, attempt, hload, hpath]
        exact (loadPrimitive_eq_ok hload).2
      · cases h

theorem grows_edits (a : AssetStore) (cs : List Call) : a.Grows (cs.foldl edit a) := by
  induction cs generalizing a with
  | nil => exact .refl a
  | cons c cs ih => exact (grows_edit a c).trans (ih (a.edit c))

end AssetStore

/-! ## A map from the paths of models -/

/-- A store that looks a model up in a map, which is kept up beside the list of the models. -/
structure IndexedStore where
  store : AssetStore
  byPath : String → Option Int32

namespace IndexedStore

open AssetStore (Use)
open Attempt

/-- Work on a store in place. -/
abbrev Work (α : Type) := Attempt AssetError IndexedStore α

/-- The index of each path in a list. -/
def indexMap (paths : List String) : String → Option Int32 :=
  fun path => (paths.findIdx? (· = path)).map .ofNat

/-- The store with the map of its models. -/
def of (a : AssetStore) : IndexedStore := ⟨a, indexMap a.models⟩

def declare (path : String) : Work Unit :=
  modify fun s => { s with store := s.store.declare path }

/-- Put a path that was declared at the end of a list. -/
def push (use : Use) (path : String) : Work Int32 := do
  if path ∈ (← get).store.declared then
    modify fun s => { s with store := s.store.withPaths use (s.store.paths use ++ [path]) }
    return .ofNat (((← get).store.paths use).length - 1)
  else throw (.notFound path)

def load : Use → String → Work Int32
  | .model, path => do
    match (← get).byPath path with
    | some i => return i
    | none =>
      let i ← push .model path
      modify fun s => { s with byPath := Function.update s.byPath path (some i) }
      return i
  | .texture, path => do
    match (← get).store.textures.findIdx? (· = path) with
    | some i => return .ofNat i
    | none => push .texture path

/-- The path of the shape stays declared even if it could not be loaded. -/
def primitive (shape : PrimitiveShape) : Work Int32 := do
  declare shape.path
  load .model shape.path

variable {s : IndexedStore} {use : Use} {path : String}

theorem push_on (h : path ∈ s.store.declared) : (push use path).on s =
    (.ok (.ofNat (s.store.paths use).length),
      { s with store := s.store.withPaths use (s.store.paths use ++ [path]) }) := by
  rw [push, on_bind_of_ok (on_get s), if_pos h, on_bind_of_ok (on_modify _ s),
    on_bind_of_ok (on_get _), AssetStore.paths_withPaths, if_pos rfl, List.length_append]
  rfl

theorem push_on_of_undeclared (h : path ∉ s.store.declared) :
    (push use path).on s = (.error (.notFound path), s) := by
  rw [push, on_bind_of_ok (on_get s), if_neg h]
  rfl

/-- Entering a path in the map keeps up with putting it at the end of the list. -/
theorem indexMap_append {paths : List String} (h : paths.findIdx? (· = path) = none) :
    indexMap (paths ++ [path]) =
      Function.update (indexMap paths) path (some (.ofNat paths.length)) := by
  funext q
  by_cases hq : q = path
  · subst hq
    rw [Function.update_self, indexMap, findIdx?_concat h, Option.map_some]
  · rw [Function.update_of_ne hq, indexMap, indexMap, List.findIdx?_append]
    simp [Ne.symm hq]

/-- A load finds in the map what it would find in the list, and fails before it changes anything. -/
theorem load_on (a : AssetStore) (use : Use) (path : String) : (load use path).on (of a) =
    (whole fun s => (s.store.load use path).map fun r => (r.1, of r.2)).on (of a) := by
  cases hi : (a.paths use).findIdx? (· = path) with
  | some k =>
      have hload : a.load use path = .ok (.ofNat k, a) :=
        AssetStore.load_of_standsAt ⟨k, hi, rfl⟩
      rw [whole_on_of_ok (congrArg (Except.map _) hload)]
      cases use with
      | model =>
          have hmap : (of a).byPath path = some (.ofNat k) := congrArg (Option.map _) hi
          rw [load, on_bind_of_ok (on_get _), hmap]
          rfl
      | texture =>
          have hfound : (of a).store.textures.findIdx? (· = path) = some k := hi
          rw [load, on_bind_of_ok (on_get _), hfound]
          rfl
  | none =>
      by_cases hdeclared : path ∈ a.declared
      · have hload := AssetStore.load_of_new hi hdeclared
        rw [whole_on_of_ok (congrArg (Except.map _) hload)]
        cases use with
        | model =>
            have hmap : (of a).byPath path = none := congrArg (Option.map _) hi
            rw [load, on_bind_of_ok (on_get _), hmap]
            dsimp only
            rw [on_bind_of_ok (push_on (s := of a) hdeclared), on_bind_of_ok (on_modify _ _)]
            exact congrArg (fun byPath => (Except.ok _, IndexedStore.mk _ byPath))
              (indexMap_append hi).symm
        | texture =>
            have hfound : (of a).store.textures.findIdx? (· = path) = none := hi
            rw [load, on_bind_of_ok (on_get _), hfound]
            exact push_on (s := of a) hdeclared
      · have hload := AssetStore.load_of_undeclared hi hdeclared
        rw [whole_on_of_error (e := .notFound path) (by rw [of, hload]; rfl)]
        cases use with
        | model =>
            have hmap : (of a).byPath path = none := congrArg (Option.map _) hi
            rw [load, on_bind_of_ok (on_get _), hmap]
            exact on_bind_of_error (push_on_of_undeclared (s := of a) hdeclared)
        | texture =>
            have hfound : (of a).store.textures.findIdx? (· = path) = none := hi
            rw [load, on_bind_of_ok (on_get _), hfound]
            exact push_on_of_undeclared (s := of a) hdeclared

/-- A primitive is declared and loaded, which does not fail. -/
theorem primitive_on {a : AssetStore} (h : a.refusesPrimitives = false) (shape : PrimitiveShape) :
    (primitive shape).on (of a) =
      (whole fun s => (s.store.loadPrimitive shape).map fun r => (r.1, of r.2)).on (of a) := by
  obtain ⟨i, a', hok⟩ := AssetStore.exists_loadPrimitive h shape
  have hload : (a.declare shape.path).load .model shape.path = .ok (i, a') := by
    rwa [AssetStore.loadPrimitive, h, if_neg Bool.false_ne_true] at hok
  have hdeclare : (declare shape.path).on (of a) = (.ok (), of (a.declare shape.path)) := by
    have hmodels : (a.declare shape.path).models = a.models := by
      unfold AssetStore.declare
      split <;> rfl
    rw [of, of, hmodels]
    rfl
  rw [primitive, on_bind_of_ok hdeclare, load_on, whole_on_of_ok (congrArg (Except.map _) hload),
    whole_on_of_ok (congrArg (Except.map _) hok)]

end IndexedStore

/-! ## Shaders -/

namespace ShaderLibrary

/-- A call that may change a library. -/
inductive Call
  | declare (path : String) (vars : List ShaderVar)
  | load (path : String)
  | reload (i : Int32)

variable {l l' : ShaderLibrary} {path : String} {vars : List ShaderVar} {i : Int32} {k : Nat}

def attempt (l : ShaderLibrary) : Call → Except AssetError ShaderLibrary
  | .declare path vars => .ok (l.declare path vars).2
  | .load path => (l.load path).map fun _ => l
  | .reload i => l.reload i

/-- A call that fails leaves the library as it was. -/
def edit (l : ShaderLibrary) (c : Call) : ShaderLibrary := (l.attempt c).toOption.getD l

/-- The path for which a call gives an index, with the index. -/
def gives (l : ShaderLibrary) : Call → Option (String × Int32)
  | .declare path vars => some (path, (l.declare path vars).1)
  | .load path => (l.load path).toOption.map (path, ·)
  | .reload _ => none

/-- The variables with which a call declares a path. -/
def declares? (path : String) : Call → Option (List ShaderVar)
  | .declare path' vars => if path' = path then some vars else none
  | _ => none

/-- The variables with which a path was declared last, and none if it never was. -/
def latest (path : String) (cs : List Call) : List ShaderVar :=
  (cs.filterMap (declares? path)).getLast?.getD []

theorem latest_concat (path : String) (cs : List Call) (c : Call) :
    latest path (cs ++ [c]) = (declares? path c).getD (latest path cs) := by
  rw [latest, List.filterMap_append, List.getLast?_append, latest]
  cases h : declares? path c <;> simp [h]

theorem standsAt_iff : StandsAt l.paths path i ↔ ∃ k, l.indexOf? path = some k ∧ i = .ofNat k := by
  rw [StandsAt, ← indexOf?_eq]

theorem load_of_standsAt (h : StandsAt l.paths path i) : l.load path = .ok i := by
  obtain ⟨k, hk, rfl⟩ := standsAt_iff.1 h
  rw [load, hk]

theorem declare_of_standsAt (h : StandsAt l.paths path i) (vars : List ShaderVar) :
    (l.declare path vars).1 = i := by
  obtain ⟨k, hk, rfl⟩ := standsAt_iff.1 h
  rw [declare, hk]

theorem paths_declare (l : ShaderLibrary) (path : String) (vars : List ShaderVar) :
    (l.declare path vars).2.paths =
      if (l.indexOf? path).isSome then l.paths else l.paths ++ [path] := by
  rw [declare]
  cases h : l.indexOf? path with
  | some k => exact paths_modify (f := fun s => { s with vars := vars }) (fun _ => rfl) l k
  | none => simp [paths]

theorem paths_reload (h : l.reload i = .ok l') : l'.paths = l.paths := by
  unfold reload at h
  split at h
  · cases h
    exact paths_modify (f := fun s => { s with revision := s.revision + 1 }) (fun _ => rfl) l _
  · cases h

theorem paths_edit (l : ShaderLibrary) (c : Call) : l.paths <+: (l.edit c).paths := by
  cases c with
  | declare path vars =>
      rw [edit, attempt, Except.toOption, Option.getD_some, paths_declare]
      split
      · exact List.prefix_refl _
      · exact List.prefix_append _ _
  | load path =>
      rw [edit, attempt]
      cases l.load path <;> exact List.prefix_refl _
  | reload i =>
      rw [edit, attempt]
      cases h : l.reload i with
      | error e => exact List.prefix_refl _
      | ok l' =>
          rw [Except.toOption, Option.getD_some]
          exact paths_reload h ▸ List.prefix_refl l.paths

theorem standsAt_gives {c : Call} {p : String × Int32} (h : l.gives c = some p) :
    StandsAt (l.edit c).paths p.1 p.2 := by
  cases c with
  | declare path vars =>
      cases h
      rw [edit, attempt, Except.toOption, Option.getD_some, paths_declare]
      cases hi : l.indexOf? path with
      | some k =>
          have hstands : StandsAt l.paths path (.ofNat k) := standsAt_iff.2 ⟨k, hi, rfl⟩
          rw [declare_of_standsAt hstands]
          exact hstands
      | none =>
          have hnew : (l.declare path vars).1 = .ofNat l.paths.length := by
            rw [declare, hi, paths, List.length_map]
          rw [hnew]
          exact .of_new (indexOf?_eq l path ▸ hi)
  | load path =>
      rw [gives] at h
      cases hload : l.load path with
      | error e => rw [hload] at h; cases h
      | ok i =>
          rw [hload] at h
          cases h
          rw [edit, attempt, hload]
          unfold load at hload
          split at hload
          · next k hk =>
            cases hload
            exact standsAt_iff.2 ⟨k, hk, rfl⟩
          · cases hload
  | reload i => cases h

theorem Knows.reload (h : l.Knows path k vars) (hr : l.reload i = .ok l') :
    l'.Knows path k vars := by
  have hpaths := paths_reload hr
  unfold ShaderLibrary.reload at hr
  split at hr
  · cases hr
    refine ⟨by rw [indexOf?_eq, hpaths, ← indexOf?_eq, h.index], ?_⟩
    obtain ⟨s, hs, rfl⟩ := Option.map_eq_some_iff.1 h.vars
    rw [List.getElem?_modify, hs]
    split <;> rfl
  · cases hr

theorem knows_declare_new (h : l.indexOf? path = none) (vars : List ShaderVar) :
    (l.declare path vars).2.Knows path l.shaders.length vars := by
  constructor
  · have hlast := findIdx?_concat (indexOf?_eq l path ▸ h)
    rw [indexOf?_eq, paths_declare, h, Option.isSome_none, if_neg Bool.false_ne_true, hlast, paths,
      List.length_map]
  · rw [declare, h]
    simp

theorem indexOf?_declare_of_ne {path' : String} (hne : path' ≠ path) (l : ShaderLibrary)
    (vars : List ShaderVar) : (l.declare path' vars).2.indexOf? path = l.indexOf? path := by
  rw [indexOf?_eq, indexOf?_eq l path, paths_declare]
  split
  · rfl
  · simp [List.findIdx?_append, hne]

/-- If every path is known by what it was declared with last, then it is so after a call. -/
theorem knows_edit {v : String → List ShaderVar}
    (h : ∀ path k, l.indexOf? path = some k → l.Knows path k (v path)) (c : Call)
    (hk : (l.edit c).indexOf? path = some k) :
    (l.edit c).Knows path k ((declares? path c).getD (v path)) := by
  cases c with
  | declare path' vars =>
      have hedit : l.edit (.declare path' vars) = (l.declare path' vars).2 := rfl
      rw [hedit] at hk ⊢
      by_cases hpath : path' = path
      · subst hpath
        obtain ⟨k', hknows⟩ : ∃ k', (l.declare path' vars).2.Knows path' k' vars := by
          cases hold : l.indexOf? path' with
          | none => exact ⟨_, knows_declare_new hold vars⟩
          | some k' =>
              have hafter := (h path' k' hold).declare path' vars
              rw [if_pos rfl] at hafter
              exact ⟨k', hafter⟩
        rw [declares?, if_pos rfl, Option.getD_some, Option.some.inj (hk.symm.trans hknows.index)]
        exact hknows
      · rw [indexOf?_declare_of_ne hpath] at hk
        have hafter := (h path k hk).declare path' vars
        rw [if_neg hpath] at hafter
        rwa [declares?, if_neg hpath, Option.getD_none]
  | load path' =>
      have hedit : l.edit (.load path') = l := by
        rw [edit, attempt]
        cases l.load path' <;> rfl
      rw [hedit] at hk ⊢
      exact h path k hk
  | reload i =>
      rw [edit, attempt] at hk ⊢
      cases hr : l.reload i with
      | error e =>
          rw [hr] at hk
          exact h path k hk
      | ok l' =>
          rw [hr, Except.toOption, Option.getD_some, indexOf?_eq, paths_reload hr,
            ← indexOf?_eq] at hk
          exact (h path k hk).reload hr

theorem knows_edits (cs : List Call) (hk : (cs.foldl edit {}).indexOf? path = some k) :
    (cs.foldl edit {}).Knows path k (latest path cs) := by
  induction cs using List.reverseRecOn generalizing path k with
  | nil =>
      by_cases hpath : "default" = path
      · subst hpath
        cases hk
        exact ⟨rfl, rfl⟩
      · have hnone : ({} : ShaderLibrary).indexOf? path = none := by simp [indexOf?, hpath]
        cases hnone.symm.trans hk
  | append_singleton cs c ih =>
      rw [latest_concat]
      rw [List.foldl_append] at hk ⊢
      exact knows_edit (fun _ _ => ih) c hk

end ShaderLibrary

/-! ## Whole runs -/

/-- A store stands by the indices that it gave to paths, of each use on its own. Primitives are
found, and a load made in place with a map does the same and changes nothing if it fails. -/
structure AssetStore.StandsBy (a : AssetStore) (given : AssetStore.Use → List (String × Int32)) :
    Prop where
  again : ∀ use, ∀ p ∈ given use, a.load use p.1 = .ok (p.2, a)
  apart : ∀ use, ∀ p ∈ given use, ∀ q ∈ given use, p.1 = q.1 ↔ p.2 = q.2
  model : ∀ p ∈ given .model, a.model? p.2 = some p.1
  primitive : ∀ shape, ∃ i a', a.loadPrimitive shape = .ok (i, a') ∧
    (IndexedStore.primitive shape).on (.of a) = (.ok i, .of a')
  inPlace : ∀ use path i a', a.load use path = .ok (i, a') →
    (IndexedStore.load use path).on (.of a) = (.ok i, .of a')
  failed : ∀ use path e s, (IndexedStore.load use path).on (.of a) = (.error e, s) →
    a.load use path = .error e ∧ s = .of a

/-- A library stands by the indices that it gave to paths, and answers at each with the variables
that its path has. -/
structure ShaderLibrary.StandsBy (l : ShaderLibrary) (given : List (String × Int32))
    (vars : String → List ShaderVar) : Prop where
  again : ∀ p ∈ given, l.load p.1 = .ok p.2 ∧ ∀ vars, (l.declare p.1 vars).1 = p.2
  apart : ∀ p ∈ given, ∀ q ∈ given, p.1 = q.1 ↔ p.2 = q.2
  vars : ∀ p ∈ given, l.vars p.2 = .ok (vars p.1)

namespace AssetStore

variable {a : AssetStore} {given : Use → List (String × Int32)}

theorem standsBy_of_standsAt (hshort : ∀ use, (a.paths use).length < 2 ^ 31)
    (haccepts : a.refusesPrimitives = false)
    (h : ∀ use, ∀ p ∈ given use, StandsAt (a.paths use) p.1 p.2) : a.StandsBy given where
  again use p hp := load_of_standsAt (h use p hp)
  apart use p hp q hq := (h use p hp).eq_iff (h use q hq) (hshort use)
  model p hp := (h .model p hp).atIndex? (hshort .model)
  primitive shape := by
    obtain ⟨i, a', hok⟩ := exists_loadPrimitive haccepts shape
    refine ⟨i, a', hok, ?_⟩
    rw [IndexedStore.primitive_on haccepts,
      Attempt.whole_on_of_ok (congrArg (Except.map _) hok)]
  inPlace use path i a' hok := by
    rw [IndexedStore.load_on, Attempt.whole_on_of_ok (congrArg (Except.map _) hok)]
  failed use path e s hfails := by
    rw [IndexedStore.load_on] at hfails
    refine ⟨?_, Attempt.eq_of_whole_on_error hfails⟩
    cases hload : a.load use path with
    | error e' =>
        rw [Attempt.whole_on_of_error (e := e') (by rw [IndexedStore.of, hload]; rfl)] at hfails
        cases hfails
        rfl
    | ok r =>
        rw [Attempt.whole_on_of_ok (congrArg (Except.map _) hload)] at hfails
        cases hfails

end AssetStore

namespace ShaderLibrary

variable {l : ShaderLibrary} {given : List (String × Int32)} {v : String → List ShaderVar}

theorem standsBy_of_standsAt (hshort : l.shaders.length < 2 ^ 31)
    (hknows : ∀ path k, l.indexOf? path = some k → l.Knows path k (v path))
    (h : ∀ p ∈ given, StandsAt l.paths p.1 p.2) : l.StandsBy given v where
  again p hp := ⟨load_of_standsAt (h p hp), declare_of_standsAt (h p hp)⟩
  apart p hp q hq := by
    refine (h p hp).eq_iff (h q hq) ?_
    rwa [paths, List.length_map]
  vars p hp := by
    obtain ⟨k, hk, hi⟩ := standsAt_iff.1 (h p hp)
    obtain ⟨hlt, _⟩ := List.findIdx?_eq_some_iff_getElem.1 hk
    rw [hi]
    exact ((hknows p.1 k hk).vars_eq (Nat.lt_trans hlt hshort)).2

end ShaderLibrary

/-- After any calls a store and a library stand by the indices that they gave. -/
theorem indices_last (assets : List AssetStore.Call) (shaders : List ShaderLibrary.Call)
    (hassets : ∀ use, ((assets.foldl AssetStore.edit {}).paths use).length < 2 ^ 31)
    (hshaders : (shaders.foldl ShaderLibrary.edit {}).shaders.length < 2 ^ 31) :
    (assets.foldl AssetStore.edit {}).StandsBy
      (fun use => answers AssetStore.edit (AssetStore.gives use) {} assets) ∧
    (shaders.foldl ShaderLibrary.edit {}).StandsBy
      (answers ShaderLibrary.edit ShaderLibrary.gives {} shaders)
      (ShaderLibrary.latest · shaders) := by
  constructor
  · refine AssetStore.standsBy_of_standsAt hassets (AssetStore.grows_edits {} assets).refuses
      fun use => ?_
    exact standsAt_answers (fun a c => (a.grows_edit c).paths use)
      (fun a c p => AssetStore.standsAt_gives) {} assets
  · refine ShaderLibrary.standsBy_of_standsAt hshaders
      (fun path k => ShaderLibrary.knows_edits shaders) ?_
    exact standsAt_answers ShaderLibrary.paths_edit
      (fun l c p => ShaderLibrary.standsAt_gives) {} shaders

/-- A model that is refused at first, a path that is a model and a texture, a primitive asked for
twice, a shader declared twice and reloaded, and the shader of every library declared anew. -/
theorem indices_last_busy :
    let assets : List AssetStore.Call :=
      [.load .model "cup", .declare "mug", .declare "cup", .load .model "cup",
        .load .texture "mug", .primitive .cube, .load .texture "cup", .load .model "mug",
        .primitive .cube, .load .model "cup"]
    let shaders : List ShaderLibrary.Call :=
      [.load "lit", .declare "lit" [⟨"world", "float4x4"⟩], .load "lit", .reload 1, .reload 7,
        .declare "default" [⟨"tint", "float3"⟩], .declare "lit" []]
    let given := fun use => answers AssetStore.edit (AssetStore.gives use) {} assets
    let known := answers ShaderLibrary.edit ShaderLibrary.gives {} shaders
    (∀ use, ((assets.foldl AssetStore.edit {}).paths use).length < 2 ^ 31) ∧
      (shaders.foldl ShaderLibrary.edit {}).shaders.length < 2 ^ 31 ∧
      given .model =
        [("cup", 0), ("primitive:cube", 1), ("mug", 2), ("primitive:cube", 1), ("cup", 0)] ∧
      given .texture = [("mug", 0), ("cup", 1)] ∧
      known = [("lit", 1), ("lit", 1), ("default", 0), ("lit", 1)] ∧
      (assets.foldl AssetStore.edit {}).StandsBy given ∧
      (shaders.foldl ShaderLibrary.edit {}).StandsBy known (ShaderLibrary.latest · shaders) := by
  intro assets shaders given known
  have hassets (use : AssetStore.Use) :
      ((assets.foldl AssetStore.edit {}).paths use).length < 2 ^ 31 := by
    cases use <;> decide +kernel
  have hshaders : (shaders.foldl ShaderLibrary.edit {}).shaders.length < 2 ^ 31 := by
    decide +kernel
  have hmodels : given .model =
      [("cup", 0), ("primitive:cube", 1), ("mug", 2), ("primitive:cube", 1), ("cup", 0)] := by
    decide +kernel
  have htextures : given .texture = [("mug", 0), ("cup", 1)] := by decide +kernel
  have hknown : known = [("lit", 1), ("lit", 1), ("default", 0), ("lit", 1)] := by
    decide +kernel
  obtain ⟨hstore, hlibrary⟩ := indices_last assets shaders hassets hshaders
  exact ⟨hassets, hshaders, hmodels, htextures, hknown, hstore, hlibrary⟩

end DrawGraph
