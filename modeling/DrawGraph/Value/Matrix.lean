/-!
# Matrices and vectors

A matrix is stored row by row. Sums of products are rounded after each operation and added from
the left, so the order of the terms below is part of the result.
-/

namespace DrawGraph

abbrev Vec3 := Vector Float32 3

abbrev Vec4 := Vector Float32 4

abbrev Mat4 := Vector Float32 16

namespace Vec3

def dot (a b : Vec3) : Float32 := a[0] * b[0] + a[1] * b[1] + a[2] * b[2]

def cross (a b : Vec3) : Vec3 :=
  #v[a[1] * b[2] - b[1] * a[2], a[2] * b[0] - b[2] * a[0], a[0] * b[1] - b[0] * a[1]]

def sub (a b : Vec3) : Vec3 := Vector.zipWith (· - ·) a b

def normalize (a : Vec3) : Vec3 :=
  let r := 1 / (dot a a).sqrt
  a.map (· * r)

end Vec3

namespace Mat4

def ofFn (f : Fin 4 → Fin 4 → Float32) : Mat4 :=
  Vector.ofFn fun i => f ⟨i / 4, by omega⟩ ⟨i % 4, by omega⟩

def entry (m : Mat4) (row col : Fin 4) : Float32 := m[4 * row.val + col.val]

def identity : Mat4 := ofFn fun i j => if i = j then 1 else 0

def transpose (m : Mat4) : Mat4 := ofFn fun i j => m.entry j i

def mulVec (m : Mat4) (v : Vec4) : Vec4 :=
  Vector.ofFn fun i =>
    m.entry i 0 * v[0] + m.entry i 1 * v[1] + m.entry i 2 * v[2] + m.entry i 3 * v[3]

def mul (a b : Mat4) : Mat4 :=
  ofFn fun i j =>
    a.entry i 0 * b.entry 0 j + a.entry i 1 * b.entry 1 j + a.entry i 2 * b.entry 2 j +
      a.entry i 3 * b.entry 3 j

/-- The right-handed projection that maps depth to `[0, 1]`; `fov` is in radians. -/
def perspective (fov aspect near far : Float32) : Mat4 :=
  let a := 0.5 * fov
  let h := a.cos / a.sin
  let w := h / aspect
  let r := far / (near - far)
  #v[w, 0, 0, 0,
     0, h, 0, 0,
     0, 0, r, r * near,
     0, 0, -1, 0]

/-- The right-handed view from `eye` towards `center`. -/
def lookAt (eye center up : Vec3) : Mat4 :=
  let f := Vec3.normalize (Vec3.sub center eye)
  let s := Vec3.normalize (Vec3.cross f up)
  let u := Vec3.cross s f
  #v[s[0], s[1], s[2], -Vec3.dot eye s,
     u[0], u[1], u[2], -Vec3.dot eye u,
     -f[0], -f[1], -f[2], Vec3.dot eye f,
     0, 0, 0, 1]

/-- The rotation about `x`, then `y`, then `z`, as a quaternion `x, y, z, w`. -/
def rotation (angles : Vec3) : Vec4 :=
  let i := angles[0] * 0.5
  let j := -angles[1] * 0.5
  let h := angles[2] * 0.5
  let cc := i.cos * h.cos
  let cs := i.cos * h.sin
  let sc := i.sin * h.cos
  let ss := i.sin * h.sin
  #v[j.cos * sc - j.sin * cs, (j.cos * ss + j.sin * cc) * -1, j.cos * cs - j.sin * sc,
    j.cos * cc + j.sin * ss]

/-- Scale first, then rotate by the quaternion `q`, then move. -/
def placement (scale : Vec3) (q : Vec4) (move : Vec3) : Mat4 :=
  let x2 := q[0] + q[0]
  let y2 := q[1] + q[1]
  let z2 := q[2] + q[2]
  let xx := q[0] * x2
  let xy := q[0] * y2
  let xz := q[0] * z2
  let yy := q[1] * y2
  let yz := q[1] * z2
  let zz := q[2] * z2
  let wx := q[3] * x2
  let wy := q[3] * y2
  let wz := q[3] * z2
  let sx : Float32 := scale[0]
  let sy : Float32 := scale[1]
  let sz : Float32 := scale[2]
  #v[(1 - (yy + zz)) * sx, (xy - wz) * sy, (xz + wy) * sz, move[0],
     (xy + wz) * sx, (1 - (xx + zz)) * sy, (yz - wx) * sz, move[1],
     (xz - wy) * sx, (yz + wx) * sy, (1 - (xx + yy)) * sz, move[2],
     0 * sx, 0 * sy, 0 * sz, 1]

end Mat4

end DrawGraph
