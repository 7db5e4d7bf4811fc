import Mathlib.Logic.Function.Basic
import Rdst.Lib.Run
import Rdst.Persistence.Merge

/-! The writers of one file: each works under the lock of the file and replaces it by a staging file of its own. -/

namespace Rdst.Persistence

open Machine

abbrev Text := List Char

/-- The pieces that a `write` callback hands to the staging file; it may raise after the last of them. -/
structure Writing where
  pieces : List Text
  raises : Bool

def Writing.text (writing : Writing) : Text := writing.pieces.flatten

/-- What encodes and decodes a document of either format; a decoder that raises gives nothing. -/
structure Formats (Json Toml : Type) where
  dumpJson : Json → Writing
  loadJson : Text → Option Json
  emptyJson : Json
  dumpToml : Toml → Writing
  loadToml : Text → Option Toml

variable {Key Atom Json Pid : Type} {depth : Nat}

/-- A call of one of the writers, with its arguments; callbacks that raise give nothing, and so does `validate`. -/
inductive Call (Key Atom Json : Type) (depth : Nat)
  | writeText (text : Text)
  | writeJson (data : Json)
  | updateJson (update : Json → Option Json) (create : Bool)
  | updateToml (baseline current : Mapping Key Atom depth) (validate : Mapping Key Atom depth → Bool)
  | deleteFile

/-- What a call goes on to do once it holds the lock and has read the file. -/
inductive Decision
  | write (writing : Writing)
  | remove
  | nothing
  | raise

variable [DecidableEq Key] [DecidableEq Atom] (formats : Formats Json (Mapping Key Atom depth))

def updated (update : Json → Option Json) (latest : Json) : Decision :=
  match update latest with
  | some current => .write (formats.dumpJson current)
  | none => .raise

def merged (baseline current : Mapping Key Atom depth) (validate : Mapping Key Atom depth → Bool)
    (latest : Mapping Key Atom depth) : Decision :=
  let merged := mergeMappingChanges latest baseline current
  if validate merged = true then .write (formats.dumpToml merged) else .raise

def Call.decision (call : Call Key Atom Json depth) (file : Option Text) : Decision :=
  match call, file with
  | .writeText text, _ => .write ⟨[text], false⟩
  | .writeJson data, _ => .write (formats.dumpJson data)
  | .updateJson update _, some text => ((formats.loadJson text).map (updated formats update)).getD .raise
  | .updateJson update create, none => if create = true then updated formats update formats.emptyJson else .nothing
  | .updateToml baseline current validate, some text =>
    ((formats.loadToml text).map (merged formats baseline current validate)).getD .raise
  | .updateToml baseline current validate, none => merged formats baseline current validate baseline
  | .deleteFile, _ => .remove

/-- The file after a call that has the disk to itself. -/
def Call.effect (call : Call Key Atom Json depth) (file : Option Text) : Option Text :=
  match call.decision formats file with
  | .write writing => some writing.text
  | .remove => none
  | .nothing | .raise => file

inductive Outcome
  | returned
  | raised
deriving DecidableEq

/-- Where a call stands. From `holding` to `leaving` it is in the `with` block of the lock. -/
inductive Phase
  | waiting
  | holding
  | creating (writing : Writing)
  | staging (name : Nat) (left : List Text) (raises : Bool)
  | staged (name attempt : Nat)
  | cleaning (name : Nat)
  | leaving (outcome : Outcome)
  | done (outcome : Outcome)
  | killed

/-- The file, the staging files beside it by name, and who holds the lock. -/
structure Disk (Pid : Type) where
  file : Option Text
  temps : Nat → Option Text
  lock : Option Pid
  phase : Pid → Phase

def Disk.start (file : Option Text) : Disk Pid := ⟨file, fun _ => none, none, fun _ => .waiting⟩

/-- What happens next: a call does its next operation, with the name that `mkstemp` draws for it, or that operation raises;
    `os.replace` is denied; a process is killed; somebody reads the file without its lock. -/
inductive Input (Pid : Type)
  | runs (p : Pid) (name : Nat)
  | fails (p : Pid)
  | denied (p : Pid)
  | kill (p : Pid)
  | read

inductive Event (Pid : Type)
  | committed (p : Pid)
  | seen (text : Option Text)

def Disk.putTemp (d : Disk Pid) (name : Nat) (text : Option Text) : Disk Pid :=
  { d with temps := Function.update d.temps name text }

@[simp] theorem Disk.putTemp_file (d : Disk Pid) (name : Nat) (text : Option Text) :
    (d.putTemp name text).file = d.file := rfl

@[simp] theorem Disk.putTemp_temps (d : Disk Pid) (name : Nat) (text : Option Text) :
    (d.putTemp name text).temps = Function.update d.temps name text := rfl

variable [DecidableEq Pid]

def Disk.enter (d : Disk Pid) (p : Pid) (phase : Phase) : Disk Pid :=
  { d with phase := Function.update d.phase p phase }

/-- The next operation of a call. -/
def Disk.runs (call : Call Key Atom Json depth) (d : Disk Pid) (p : Pid) (name : Nat) : Disk Pid × List (Event Pid) :=
  match d.phase p with
  | .waiting => if d.lock = none then ({ d with lock := some p }.enter p .holding, []) else (d, [])
  | .holding =>
    match call.decision formats d.file with
    | .write writing => (d.enter p (.creating writing), [])
    | .remove => ({ d with file := none }.enter p (.leaving .returned), [.committed p])
    | .nothing => (d.enter p (.leaving .returned), [.committed p])
    | .raise => (d.enter p (.leaving .raised), [])
  -- a name that is taken is drawn again
  | .creating writing =>
    if d.temps name = none then
      ((d.putTemp name (some [])).enter p (.staging name writing.pieces writing.raises), [])
    else (d, [])
  | .staging temp (piece :: left) raises =>
    ((d.putTemp temp ((d.temps temp).map (· ++ piece))).enter p (.staging temp left raises), [])
  | .staging temp [] true => (d.enter p (.cleaning temp), [])
  | .staging temp [] false => (d.enter p (.staged temp 0), [])
  | .staged temp _ =>
    match d.temps temp with
    | some text => (({ d with file := some text }.putTemp temp none).enter p (.leaving .returned), [.committed p])
    | none => (d.enter p (.cleaning temp), [])
  | .cleaning temp => ((d.putTemp temp none).enter p (.leaving .raised), [])
  | .leaving outcome => ({ d with lock := none }.enter p (.done outcome), [])
  | .done _ | .killed => (d, [])

/-- The operation raises: the lock times out, the disk is full, the staging file cannot be unlinked. -/
def Disk.fails (d : Disk Pid) (p : Pid) : Disk Pid :=
  match d.phase p with
  | .waiting => d.enter p (.done .raised)
  | .holding | .creating _ | .cleaning _ => d.enter p (.leaving .raised)
  | .staging temp _ _ | .staged temp _ => d.enter p (.cleaning temp)
  | .leaving _ | .done _ | .killed => d

/-- `replace_with_retry` raises what the last of its four attempts met. -/
def Disk.denied (d : Disk Pid) (p : Pid) : Disk Pid :=
  match d.phase p with
  | .staged temp attempt => d.enter p (if attempt = 3 then .cleaning temp else .staged temp (attempt + 1))
  | _ => d

/-- The lock of a process that is gone is free; its staging file stays. -/
def Disk.kill (d : Disk Pid) (p : Pid) : Disk Pid :=
  match d.phase p with
  | .done _ | .killed => d
  | _ => { d with lock := if d.lock = some p then none else d.lock }.enter p .killed

def step (calls : Pid → Call Key Atom Json depth) (d : Disk Pid) : Input Pid → Disk Pid × List (Event Pid)
  | .runs p name => d.runs formats (calls p) p name
  | .fails p => (d.fails p, [])
  | .denied p => (d.denied p, [])
  | .kill p => (d.kill p, [])
  | .read => (d, [.seen d.file])

/-- The calls that took effect, in the order in which they did. -/
def committed (trace : List (Event Pid)) : List Pid :=
  trace.filterMap fun event =>
    match event with
    | .committed p => some p
    | .seen _ => none

/-- The same calls one after the other, each with the disk to itself. -/
def serial (calls : Pid → Call Key Atom Json depth) (start : Option Text) (log : List Pid) : Option Text :=
  log.foldl (fun file p => (calls p).effect formats file) start

end Rdst.Persistence
