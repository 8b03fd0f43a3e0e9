import Resumable.ExcType
import Resumable.Heap.Ref

/-!
# Classes

A class is a nonempty chain of layers, from the class itself up to the class it ultimately derives
from. A layer says which of the three hooks it declares: hashing, equality and construction. A
hook is inherited from the nearest layer that declares it, each hook by itself.
-/

namespace Resumable

structure Layer where
  id : Identity
  name : String
  hashes : Bool
  compares : Bool
  constructs : Bool
  deriving DecidableEq, Inhabited

structure Class where
  layer : Layer
  parents : List Layer
  /-- The exception type that instances belong to, for a class of exceptions. -/
  base? : Option ExcType
  deriving DecidableEq, Inhabited

namespace Class

def layers (c : Class) : List Layer := c.layer :: c.parents

def id (c : Class) : Identity := c.layer.id

def name (c : Class) : String := c.layer.name

def root (layer : Layer) : Class := ⟨layer, [], none⟩

def ofExceptions (layer : Layer) (base : ExcType) : Class := ⟨layer, [], some base⟩

def extend (layer : Layer) (parent : Class) : Class := ⟨layer, parent.layers, parent.base?⟩

def isSubclassOf (c d : Class) : Bool := c.layers.any (·.id == d.id)

/-- The layer whose hash hook instances use. -/
def hashLayer? (c : Class) : Option Layer := c.layers.find? (·.hashes)

def equalityLayer? (c : Class) : Option Layer := c.layers.find? (·.compares)

def constructionLayer? (c : Class) : Option Layer := c.layers.find? (·.constructs)

@[simp] theorem layers_extend (layer : Layer) (parent : Class) :
    (extend layer parent).layers = layer :: parent.layers := rfl

/-- Hashing or comparing an instance runs a hook. -/
def hasHooks (c : Class) : Bool := c.hashLayer?.isSome || c.equalityLayer?.isSome

end Class

end Resumable
