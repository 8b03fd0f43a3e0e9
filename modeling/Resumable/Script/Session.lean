import Std.Data.HashMap
import Resumable.Run.Operations
import Resumable.Script.Expr
import Resumable.Script.Show

/-!
# Sessions

A session is the state that the expressions of a scenario share: its variables, the classes and
targets that were declared, its frames and dictionaries, the failures being handled, and its log.
Names stand for frames and dictionaries; an operation goes on with the dictionary that the name
stood for when it began, whatever the hooks that it runs do with the name.
-/

namespace Resumable.Script

structure DeclaredClass where
  spec : ClassSpec
  cls : Class
  hashes : Nat
  compares : Nat
  constructs : Nat
  deriving Inhabited

structure Session where
  values : Std.HashMap String Value
  /-- The class declared last comes first. -/
  classes : List DeclaredClass
  targets : Std.HashMap String Target
  frames : Std.HashMap String (Ref .frame)
  dicts : Std.HashMap String (Ref .dictionary)
  /-- What the dictionaries hold, also those that no name stands for any more. -/
  storages : Store .dictionary Storage
  /-- The failure handled last comes first. -/
  caught : List Failure
  log : List Json

namespace Session

def empty : Session := ⟨∅, [], ∅, ∅, ∅, .empty, [], []⟩

instance : Inhabited Session := ⟨empty⟩

def class? (s : Session) (name : String) : Option DeclaredClass :=
  s.classes.find? (·.spec.name == name)

def declaration? (s : Session) (layer : Layer) : Option DeclaredClass :=
  s.classes.find? (·.cls.id == layer.id)

def modifyDeclaration (layer : Layer) (f : DeclaredClass → DeclaredClass) (s : Session) :
    Session :=
  { s with classes := s.classes.map fun d => if d.cls.id == layer.id then f d else d }

def setVariable (name : String) (v : Value) (s : Session) : Session :=
  { s with values := s.values.insert name v }

def setFrame (name : String) (f : Ref .frame) (s : Session) : Session :=
  { s with frames := s.frames.insert name f }

def addDict (name : String) (storage : Storage) (s : Session) : Session :=
  { s with
    dicts := s.dicts.insert name s.storages.next
    storages := s.storages.add storage }

def storage (s : Session) (d : Ref .dictionary) : Storage := s.storages.get d

def setStorage (d : Ref .dictionary) (storage : Storage) (s : Session) : Session :=
  { s with storages := s.storages.set d storage }

end Session

-- ---------------------------------------------------------------------------
-- Dictionaries
-- ---------------------------------------------------------------------------

abbrev OnDict : Type → Type 1 := ReaderT (Ref .dictionary) (Prog Session)

instance : MonadStateOf Storage OnDict where
  get d := Prog.look (·.host.storage d)
  set storage d := Prog.modifyHost (·.setStorage d storage)
  modifyGet f d := do
    let (a, storage) := f (← Prog.look (·.host.storage d))
    Prog.modifyHost (·.setStorage d storage)
    return a

-- ---------------------------------------------------------------------------
-- Evaluation
-- ---------------------------------------------------------------------------

inductive Stop where
  | failure (f : Failure)
  | exit (r : BodyResult)

abbrev Eval : Type → Type 1 := ExceptT Stop (Prog Session)

/-- What an expression comes to: a value, a value that may be absent, or a report. -/
inductive Result where
  | value (v : Value)
  | optional (v : Option Value)
  | report (j : Json)

namespace Result

def none : Result := .value .none

def toValue : Result → Value
  | value v => v
  | optional (some v) => v
  | optional Option.none => .none
  | report _ => .none

def toJson {σ : Type} (w : World σ) : Result → Json
  | value v => Show.value w v
  | optional v => Show.value? w v
  | report j => j

end Result

namespace Eval

def lift {α : Type} (p : Prog Session α) : Eval α := ExceptT.lift p

def ofAction {α : Type} (a : Action Session α) : Eval α := a.adapt Stop.failure

def fail {α : Type} (f : Failure) : Eval α := throw (.failure f)

def malformed {α : Type} (problem : String) : Eval α := fail (.internal ("script: " ++ problem))

def session : Eval Session := lift (.look (·.host))

def modify (f : Session → Session) : Eval Unit := lift (.modifyHost f)

def report (f : World Session → Json) : Eval Result := return .report (← lift (.look f))

def value (v : Value) : Eval Result := return .value v

def bool (b : Bool) : Eval Result := value (.bool b)

def require {α : Type} (problem : String) : Option α → Eval α
  | some a => return a
  | none => malformed problem

-- ---------------------------------------------------------------------------
-- Tables
-- ---------------------------------------------------------------------------

def classNamed (name : String) : Eval DeclaredClass := do
  require ("no class " ++ name) ((← session).class? name)

def targetNamed (name : String) : Eval Target := do
  require ("no target " ++ name) ((← session).targets[name]?)

def frameNamed (name : String) : Eval (Ref .frame) := do
  require ("no frame " ++ name) ((← session).frames[name]?)

def dictNamed (name : String) : Eval (Ref .dictionary) := do
  require ("no dict " ++ name) ((← session).dicts[name]?)

def storageNamed (name : String) : Eval Storage := do
  let d ← dictNamed name
  return (← session).storage d

def onDict {α : Type} (name : String) (x : ExceptT Failure OnDict α) : Eval α := do
  let d ← dictNamed name
  ofAction (ExceptT.mk (x.run.run d))

/-- Reads a dictionary of the session in a way that may make it remember something. -/
def readDict {α : Type} (name : String) (f : Memory → Storage → α × Storage) : Eval α := do
  let mem ← lift Prog.memory
  onDict name (modifyGet (f mem))

end Eval

end Resumable.Script
