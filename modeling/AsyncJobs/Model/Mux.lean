import AsyncJobs.Model.Task
import Mathlib.Data.List.AList

/-!
# The task router

A `Mux` keeps its entries behind pointers that a map by task type and a slice share. Here
the entries are a list and a pointer is a position in it, so the chain that `Use` rebuilds
through the map is the one that prefix routing reads through the slice. Handler functions
are of any type `H`. A middleware is called whenever a chain is built; a nil one is `none`
and panics when it is called.
-/

namespace AsyncJobs

abbrev Middleware (H : Type) := H → Except Fault H

/-- `strings.HasPrefix`. -/
def hasPrefix (s p : String) : Bool := p.toList.isPrefixOf s.toList

section Chains

variable {H : Type}

def nilCall : Fault := .panic nilDereference

def callMiddleware : Option (Middleware H) → Middleware H
  | none => fun _ => .error nilCall
  | some mw => mw

/-- The loop that wraps a handler from the last middleware to the first. -/
def wrap : List (Option (Middleware H)) → Middleware H
  | [], next => .ok next
  | mw :: mws, next =>
    match wrap mws next with
    | .error f => .error f
    | .ok next => callMiddleware mw next

/-- `Chain`. -/
def chain (mws : List (Option (Middleware H))) : Middleware H := wrap mws

end Chains

structure EntryHandler (H : Type) where
  ttype : String
  hf : H
  mws : List (Option (Middleware H))
  combined : H

structure Mux (H : Type) where
  entries : List (EntryHandler H) := []
  hf : AList fun _ : String => Nat := ∅
  ehf : List Nat := []
  mws : List (Option (Middleware H)) := []

/-- `sort.Slice` by a key, the largest first. The order of equal keys is left open. -/
abbrev SortSlice := (Nat → Nat) → List Nat → List Nat

def SortSlice.Sorts (sort : SortSlice) : Prop :=
  ∀ key l, (sort key l).Perm l ∧ (sort key l).Pairwise fun a b => key b ≤ key a

namespace Mux

variable {H : Type} (m : Mux H)

/-- The per-route middleware is applied before that of the `Mux`. -/
def buildChain (e : EntryHandler H) : Except Fault H :=
  match wrap e.mws e.hf with
  | .error f => .error f
  | .ok h => wrap m.mws h

/-- The entry that `Handler` finds: an exact match, else the first one in the slice whose
type is a prefix. -/
def resolve (taskType : String) : Option (EntryHandler H) :=
  match m.hf.lookup taskType with
  | some e => m.entries[e]?
  | none => (m.ehf.filterMap fun e => m.entries[e]?).find? fun e => hasPrefix taskType e.ttype

def handler (notFoundHandler : H) (t : Task) : H :=
  match m.resolve t.type with
  | some e => e.combined
  | none => notFoundHandler

/-- One turn of the loop in `Use` over the map. -/
def rebuild (e : Nat) : Except Fault (Mux H) :=
  match m.entries[e]? with
  | none => .ok m
  | some entry =>
    match m.buildChain entry with
    | .error f => .error f
    | .ok combined => .ok { m with entries := m.entries.set e { entry with combined } }

def rebuildAll (m : Mux H) : List Nat → Except Fault (Mux H)
  | [] => .ok m
  | e :: es =>
    match m.rebuild e with
    | .error f => .error f
    | .ok m => rebuildAll m es

def use (mws : List (Option (Middleware H))) : Except Fault (Option Error × Mux H) :=
  if mws.any (·.isNone) then .ok (some Sentinel.invalidMiddleware.error, m)
  else
    match rebuildAll { m with mws := m.mws ++ mws } (m.hf.entries.map (·.2)) with
    | .error f => .error f
    | .ok m => .ok (none, m)

def typeLength (entries : List (EntryHandler H)) (e : Nat) : Nat :=
  match entries[e]? with
  | none => 0
  | some e => e.ttype.utf8ByteSize

/-- The error names the type, quoted as a text without special characters is. -/
def handleFunc (sort : SortSlice) (taskType : String) (h : H)
    (mws : List (Option (Middleware H))) : Except Fault (Option Error × Mux H) :=
  if mws.any (·.isNone) then .ok (some Sentinel.invalidMiddleware.error, m)
  else
    match m.hf.lookup taskType with
    | some _ =>
      .ok (some (Sentinel.duplicateHandlerForTaskType.error.wrap (" \"" ++ taskType ++ "\"")), m)
    | none =>
      match m.buildChain { ttype := taskType, hf := h, mws, combined := h } with
      | .error f => .error f
      | .ok combined =>
        let entries := m.entries ++ [{ ttype := taskType, hf := h, mws, combined }]
        .ok (none, { m with
          entries
          hf := m.hf.insert taskType m.entries.length
          ehf := sort (typeLength entries) (m.ehf ++ [m.entries.length]) })

end Mux

/-- A call that changes the router. Each registration sorts in its own way. -/
inductive MuxCall (H : Type) where
  | use (mws : List (Option (Middleware H)))
  | handleFunc (sort : SortSlice) (taskType : String) (h : H)
      (mws : List (Option (Middleware H)))

def Mux.call {H : Type} (m : Mux H) : MuxCall H → Except Fault (Option Error × Mux H)
  | .use mws => m.use mws
  | .handleFunc sort taskType h mws => m.handleFunc sort taskType h mws

/-- The calls one after the other, whether they are accepted or not. -/
def Mux.calls {H : Type} (m : Mux H) : List (MuxCall H) → Except Fault (Mux H)
  | [] => .ok m
  | c :: cs =>
    match m.call c with
    | .error f => .error f
    | .ok (_, m) => m.calls cs

end AsyncJobs
