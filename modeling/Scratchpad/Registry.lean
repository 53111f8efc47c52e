import Scratchpad.Interpreter
import Scratchpad.Text.Literal

/-!
# Environments of surfaces

Each surface has an environment of its own, made when it is first asked for. The registry also knows the surface that
was used last.
-/

namespace Scratchpad

/-- What identifies a surface in a session. -/
inductive SurfaceId where
  | text (s : String)
  | number (n : Int)
  deriving DecidableEq, Repr

namespace SurfaceId

/-- The plain text of an identifier. -/
def name : SurfaceId → String
  | text s => s
  | number n => toString n

/-- An identifier as messages show it. -/
def describe : SurfaceId → String
  | text s => Text.Literal.ofText s
  | number n => toString n

end SurfaceId

/-- The environments by the identifiers of their surfaces. -/
structure Registry where
  environments : List (SurfaceId × Nat) := []
  active : Option SurfaceId := none
  deriving Repr

namespace Registry

def find? (r : Registry) (id : SurfaceId) : Option Nat :=
  r.environments.lookup id

def contains (r : Registry) (id : SurfaceId) : Bool :=
  (r.find? id).isSome

def size (r : Registry) : Nat :=
  r.environments.length

/-- The environment of a surface, which holds itself; the truth value tells whether it was made just now. -/
def getOrCreate (r : Registry) (i : Interpreter) (id : SurfaceId) : Nat × Bool × Registry × Interpreter :=
  match r.find? id with
  | some env => (env, false, r, i.restoreSelf env)
  | none =>
    let (env, i) := i.newEnvironment
    (env, true, { r with environments := r.environments ++ [(id, env)] }, i)

/-- Notes that a surface was used. -/
def touch (r : Registry) (id : SurfaceId) : Registry :=
  { r with active := some id }

/-- Drops the environment of a surface. -/
def reset (r : Registry) (id : SurfaceId) : Registry :=
  { r with environments := r.environments.filter fun e => e.1 ≠ id }

/-- Drops the environment of a surface that is gone. -/
def forget (r : Registry) (id : SurfaceId) : Registry :=
  let r := r.reset id
  { r with active := if r.active = some id then none else r.active }

end Registry

end Scratchpad
