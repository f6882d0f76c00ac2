import Broadphase.Vec3

/-!
Vectors of four components and square matrices of four columns, with the
product that combines a projection and a view.
-/

namespace Broadphase

structure Vec4 where
  x : Float32
  y : Float32
  z : Float32
  w : Float32
  deriving BEq, DecidableEq

namespace Vec4

instance : Inhabited Vec4 := ⟨⟨0, 0, 0, 0⟩⟩

instance : Add Vec4 := ⟨fun a b => ⟨a.x + b.x, a.y + b.y, a.z + b.z, a.w + b.w⟩⟩
instance : Sub Vec4 := ⟨fun a b => ⟨a.x - b.x, a.y - b.y, a.z - b.z, a.w - b.w⟩⟩

def scale (a : Vec4) (s : Float32) : Vec4 := ⟨a.x * s, a.y * s, a.z * s, a.w * s⟩

def shrink (a : Vec4) (s : Float32) : Vec4 := ⟨a.x / s, a.y / s, a.z / s, a.w / s⟩

def xyz (a : Vec4) : Vec3 := ⟨a.x, a.y, a.z⟩

end Vec4

/-- A matrix as its four columns. -/
structure Mat4 where
  colX : Vec4
  colY : Vec4
  colZ : Vec4
  colW : Vec4
  deriving BEq, DecidableEq

namespace Mat4

def identity : Mat4 :=
  ⟨⟨1, 0, 0, 0⟩, ⟨0, 1, 0, 0⟩, ⟨0, 0, 1, 0⟩, ⟨0, 0, 0, 1⟩⟩

instance : Inhabited Mat4 := ⟨identity⟩

/-- The combination of the columns weighted by the components of `v`, summed
from the first column to the last. -/
def apply (m : Mat4) (v : Vec4) : Vec4 :=
  m.colX.scale v.x + m.colY.scale v.y + m.colZ.scale v.z + m.colW.scale v.w

/-- The matrix product: each column of the right factor goes through the left
one. -/
def mul (a b : Mat4) : Mat4 :=
  ⟨a.apply b.colX, a.apply b.colY, a.apply b.colZ, a.apply b.colW⟩

instance : Mul Mat4 := ⟨mul⟩

/-- The row made of one component of every column. -/
def row (m : Mat4) (component : Vec4 → Float32) : Vec4 :=
  ⟨component m.colX, component m.colY, component m.colZ, component m.colW⟩

end Mat4

end Broadphase
