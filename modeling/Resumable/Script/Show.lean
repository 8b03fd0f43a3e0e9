import Resumable.Json.Basic
import Resumable.Run.World
import Resumable.Storage.Dict

/-!
# Reports

What a scenario reports is a JSON document. A value is reported by the name of its type and its
text, a failure with everything that can be read off its exception. Addresses in texts are masked.
Numbers of 64 bits are reported as texts.
-/

namespace Resumable.Script.Show

variable {σ : Type}

def int (n : Int) : Json := .number n.repr

def digits (n : Nat) : Json := .ofText n.repr

def digits? : Option Nat → Json
  | some n => digits n
  | none => .null

def masked (s : String) : Json := .ofText (Text.masked s)

def value (w : World σ) (v : Value) : Json :=
  .array [.ofText v.typeName, masked (v.repr w.lookup)]

def value? (w : World σ) : Option Value → Json
  | some v => value w v
  | none => .null

-- ---------------------------------------------------------------------------
-- Exceptions
-- ---------------------------------------------------------------------------

/-- The most entries of a traceback that are listed. -/
def tracebackLimit : Nat := 20

def tracebackEntry (e : TracebackEntry) : Json :=
  .array [.ofText e.snapshot.code.name, .ofNat e.line, int e.snapshot.offset,
    .ofNat e.snapshot.line]

def traceback (t? : Option Traceback) : Json :=
  let entries := Traceback.entriesOf t?
  let listed := (entries.take tracebackLimit).map tracebackEntry
  .array (if entries.length > tracebackLimit then listed ++ [.ofText "..."] else listed)

def tracebackDepth (t? : Option Traceback) : Json := .ofNat (Traceback.entriesOf t?).length

/-- An exception with what it is linked to, to a depth. -/
def linked (w : World σ) : Nat → Option Exc → Json
  | _, none => .null
  | 0, some _ => .ofText "..."
  | n + 1, some e =>
    let links := w.linksOf e
    .record [("repr", masked (e.repr w.lookup)), ("context", linked w n links.context),
      ("cause", linked w n links.cause)]

def linkDepth : Nat := 3

def fullDescription (w : World σ) (e : Exc) : String :=
  let entries := Traceback.entriesOf (w.linksOf e).traceback
  let lines := entries.map fun x =>
    "  File \"" ++ x.snapshot.code.filename ++ "\", line " ++ x.line.repr ++ ", in "
      ++ x.snapshot.code.name ++ "\n"
  let heading := if entries.isEmpty then "" else "Traceback (most recent call last):\n"
  heading ++ String.join lines ++ e.description w.lookup

def takeLast (n : Nat) (text : String) : String :=
  let chars := text.toList
  String.ofList (chars.drop (chars.length - n))

/-- The most characters of a description that are reported, the last ones. -/
def descriptionLimit : Nat := 1500

def failure (w : World σ) (f : Failure) : Json :=
  let raised (kind : String) (r : Raise) : Json :=
    let links := w.linksOf r.exc
    .record [("error", .ofText kind), ("type", .ofText r.exc.typeName),
      ("base", .ofText r.exc.type.name), ("message", masked (r.exc.message w.lookup)),
      ("args", .array (r.exc.args.map (value w))), ("stop", value? w f.stopValue?),
      ("tb", traceback links.traceback), ("tb_depth", tracebackDepth links.traceback),
      ("context", linked w linkDepth links.context), ("cause", linked w linkDepth links.cause),
      ("host_bt", .bool r.hostTrace),
      ("display", .ofText (takeLast descriptionLimit
        (Text.masked (fullDescription w r.exc))))]
  match f with
  | .internal message =>
    .record [("error", .ofText "Internal"), ("message", .ofText message),
      ("display", .ofText ("internal error: " ++ message))]
  | .raised r => raised "Exc" r
  | .uncatchable r => raised "UncatchableExc" r

def excInfo (w : World σ) (e : Exc) : Json :=
  let links := w.linksOf e
  .record [("type", .ofText e.typeName), ("base", .ofText e.type.name),
    ("class", match e.class? with | some c => .ofText c.name | none => .null),
    ("message", masked (e.message w.lookup)), ("repr", masked (e.repr w.lookup)),
    ("text", masked (e.description w.lookup)), ("args", .array (e.args.map (value w))),
    ("stop", value w e.stopValue), ("tb", traceback links.traceback),
    ("tb_depth", tracebackDepth links.traceback),
    ("context", linked w linkDepth links.context), ("cause", linked w linkDepth links.cause)]

-- ---------------------------------------------------------------------------
-- Values
-- ---------------------------------------------------------------------------

def typeText (t : TypeTag) : Json := .ofText t.name

def description (w : World σ) (v : Value) : Json :=
  .record [("type_name", .ofText v.typeName), ("py_type", typeText v.type),
    ("repr", masked (v.repr w.lookup)), ("is_none", .bool v.isNone),
    ("as_int", match v.asInt with | some i => .ofText i.toInt.repr | none => .null),
    ("as_str", match v.asText with | some s => .ofText s | none => .null),
    ("is_exc", .bool v.asExc.isSome), ("is_exc_class", .bool v.isExceptionClass),
    ("may_run_code", .bool v.mayRunCode)]

-- ---------------------------------------------------------------------------
-- Frames
-- ---------------------------------------------------------------------------

def localsText (w : World σ) (f : Ref .frame) : String :=
  Storage.reprPairs w.lookup ((w.memory.bindings f).map fun (name, v) => (.text name, v))

def snapshot (w : World σ) (s : Snapshot) : Json :=
  .record [("lasti", int s.offset), ("lineno", .ofNat s.line), ("code", .ofText s.code.name),
    ("locals", masked (localsText w s.frame)),
    ("len", .ofNat ((Locals.ofFrame s.frame).size w.memory).1)]

def tracebackInfo (w : World σ) (t : Traceback) : Json :=
  .record [("lineno", .ofNat t.outermost.line), ("depth", .ofNat t.depth),
    ("frame", snapshot w t.outermost.snapshot)]

def frameInfo (w : World σ) (f : Ref .frame) : Json :=
  let layout := w.memory.layout f
  .record [("len", .ofNat layout.size), ("empty", .bool (layout.size == 0)),
    ("visible", .array (layout.slots.map fun s => .bool s.visible?.isSome)),
    ("values", .array ((List.range layout.size).map fun i => value? w (w.memory.load f i)))]

-- ---------------------------------------------------------------------------
-- Generators
-- ---------------------------------------------------------------------------

def variant : GeneratorState → String
  | .created => "New"
  | .running => "Running"
  | .suspended => "Suspended"
  | .finished => "Finished"

def generatorInfo (w : World σ) (r : Ref .generator) : Json :=
  let g := w.generator r
  .record [("state", .ofText g.state.name), ("variant", .ofText (variant g.state)),
    ("running", .bool (g.state == .running)), ("lasti", int g.offset), ("name", .ofText g.name),
    ("qualname", .ofText g.qualifiedName),
    ("yieldfrom", match g.delegate with
      | some sub => .ofText (w.generator sub).qualifiedName
      | none => .null),
    ("frame", match g.snapshot? with | some s => snapshot w s | none => .null),
    ("args", .array (g.template.values.map (value w))),
    ("payload", .bool g.template.payload.isSome),
    ("captured", .bool g.template.caller.isSome),
    ("repr", masked ((Value.generator r).repr w.lookup))]

/-- A code object is its code, so looking twice gives the same object. -/
def code (c : Code) (offsets : List Int) : Json :=
  .record [("name", .ofText c.name), ("qualname", .ofText c.qualifiedName),
    ("filename", .ofText c.filename), ("firstlineno", .ofNat c.firstLine),
    ("argcount", .ofNat c.argumentCount),
    ("varnames", .array (c.variableNames.map fun t => .ofText t.text)), ("cached", .bool true),
    ("lines", .array (offsets.map fun o => .ofNat (c.lineAt o)))]

def outcome (w : World σ) : Outcome → Json
  | .yielded v => .record [("yielded", value w v)]
  | .returned v => .record [("returned", value w v)]
  | .failed f => .record [("raised", failure w f)]

-- ---------------------------------------------------------------------------
-- Limits and tracing
-- ---------------------------------------------------------------------------

def options (o : Options) : Json :=
  .record [("max_recursion_depth", digits? o.limits.depth?),
    ("max_resumes", digits? o.limits.resumes?), ("host_backtraces", .bool o.hostTraces)]

def context (w : World σ) (c : Context) : Json :=
  .record [("depth", .ofNat c.depth), ("current", value? w (c.currentException?.map (·.value))),
    ("options", options c.options), ("max_resumes", digits? c.options.limits.resumes?)]

def limitError (cause : LimitError) : Json :=
  let fields := match cause with
    | .depth limit attempted => ("recursion", [limit, attempted])
    | .resumes limit count => ("operation", [limit, count])
  let report := match (Exec.fault (.limit cause)).run (World.initial ()) with
    | some (f, w) => failure w f
    | none => .null
  .record [("fields", .record [(fields.1, .array (fields.2.map digits))]),
    ("text", .ofText cause.text), ("run_error", report)]

def event : TraceEvent → Json
  | .resume name kind depth =>
    .array [.ofText "resume", .ofText name, .ofText kind.name, .ofNat depth]
  | .yield name offset => .array [.ofText "yield", .ofText name, int offset]
  | .finish name reason => .array [.ofText "finish", .ofText name, .ofText reason.name]
  | .lookup cached => .array [.ofText "lookup", .ofText (if cached then "hit" else "miss")]

def events (es : List TraceEvent) : Json := .array (es.map event)

def profile (r : ProfileReport) : Json :=
  .record [("resumes", .array (r.resumes.map fun (name, n) => .array [.ofText name, .ofNat n])),
    ("total_resumes", .ofNat r.totalResumes), ("sends", .ofNat r.sends),
    ("throws", .ofNat r.throws), ("yields", .ofNat r.yields), ("returned", .ofNat r.returned),
    ("raised", .ofNat r.raised), ("closed", .ofNat r.closed), ("max_depth", .ofNat r.maxDepth),
    ("cache_hits", .ofNat r.cacheHits), ("cache_misses", .ofNat r.cacheMisses),
    ("text", .ofText r.text)]

end Resumable.Script.Show
