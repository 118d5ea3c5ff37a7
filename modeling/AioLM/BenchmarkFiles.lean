import AioLM.BenchmarkStore

/-!
The folders of the benchmark store, the operations on them that may each fail, and
the names under which journals, receipts and tombstones are kept.
-/

set_option autoImplicit false

namespace AioLM.Benchmark

open Fallible Json

/-- The files of each folder, by name. -/
structure Store where
  runs : KeyMap Text Bytes := .empty
  receipts : KeyMap Text Bytes := .empty
  recentCache : KeyMap Text Bytes := .empty
  deletions : KeyMap Text Bytes := .empty

/-- The store and the operations on it so far. -/
structure Disk where
  store : Store := {}
  clock : Nat := 0

/-- What the system does with each operation, by its number: its failure, and what the
writers of other runs put into their journals right before it. -/
structure Host where
  fails : Nat → Option Text := fun _ => none
  others : Nat → List (Text × Bytes) := fun _ => []

abbrev Run := Effect Text Disk

/-- A writer changes the file it has open; it makes no other. -/
def overwrite (runs : KeyMap Text Bytes) (change : Text × Bytes) : KeyMap Text Bytes :=
  if (runs.get change.1).isSome then runs.insert change.1 change.2 else runs

def Disk.advance (host : Host) (d : Disk) : Disk where
  store := { d.store with runs := (host.others d.clock).foldl overwrite d.store.runs }
  clock := d.clock + 1

section Operations

variable {α : Type} (host : Host)

def query (f : Store → α) : Run α := do
  let d ← get
  modify (Disk.advance host)
  match host.fails d.clock with
  | some error => throw error
  | none => return f (d.advance host).store

/-- A change that happens as a whole or not at all. -/
def update (f : Store → Store) : Run Unit := do
  let d ← get
  modify (Disk.advance host)
  match host.fails d.clock with
  | some error => throw error
  | none => modify fun d => { d with store := f d.store }

/-- An operation that only orders or synchronizes others. -/
def touch : Run Unit := update host id

theorem exec_query (f : Store → α) (d : Disk) :
    (∃ error, Effect.exec (query host f) d = (.error error, d.advance host)) ∨
      Effect.exec (query host f) d = (.ok (f (d.advance host).store), d.advance host) := by
  cases hfails : host.fails d.clock with
  | some error => exact .inl ⟨error, by simp [query, Effect.exec_bind, hfails]⟩
  | none => exact .inr (by simp [query, Effect.exec_bind, Effect.exec_map, Except.map, hfails])

theorem exec_update (f : Store → Store) (d : Disk) :
    (∃ error, Effect.exec (update host f) d = (.error error, d.advance host)) ∨
      Effect.exec (update host f) d =
        (.ok (), { d.advance host with store := f (d.advance host).store }) := by
  cases hfails : host.fails d.clock with
  | some error => exact .inl ⟨error, by simp [update, Effect.exec_bind, hfails]⟩
  | none => exact .inr (by simp [update, Effect.exec_bind, hfails])

variable {host}

theorem query_ok {f : Store → α} {d d' : Disk} {a : α}
    (h : Effect.exec (query host f) d = (.ok a, d')) :
    a = f (d.advance host).store ∧ d' = d.advance host := by
  rcases exec_query host f d with ⟨error, herror⟩ | hok
  · rw [h] at herror
    cases herror
  · rw [h] at hok
    cases hok
    exact ⟨rfl, rfl⟩

theorem update_ok {f : Store → Store} {d d' : Disk} {u : Unit}
    (h : Effect.exec (update host f) d = (.ok u, d')) :
    d' = { d.advance host with store := f (d.advance host).store } := by
  rcases exec_update host f d with ⟨error, herror⟩ | hok
  · rw [h] at herror
    cases herror
  · rw [h] at hok
    cases hok
    rfl

end Operations

variable {π : Type} (pkg : Packages π)

def jsonl : Text := ".jsonl".toList

def isJournal (name : Text) : Bool := jsonl.isSuffixOf name && name ≠ jsonl

def Store.files (store : Store) : List Text :=
  ((store.runs.entries.map (·.1)).filter isJournal).reverse

def digest (id : Text) : Text := pkg.sha256 (TextBytes.encode id)

def recordId (record : Json) : Text := ((record.get "id").bind asStr).getD []

def recordDigest (record : Json) : Text := digest pkg (recordId record) ++ jsonl

def existingDigests (store : Store) : List Text :=
  store.files.filterMap fun name => (Text.splitOnce '-' name).map (·.2)

/-- `{created:016}-{digest}` -/
def journalName (record : Json) : Text :=
  (Nat.toDigits 10 (((record.get "createdAt").bind asU64).getD 0)).leftpad 16 '0' ++
    '-' :: recordDigest pkg record

def receiptName (id : Text) : Text := digest pkg id ++ ".json".toList

def tombstoneName (id : Text) : Text := digest pkg id ++ ".deleted".toList

def receipted (store : Store) (id : Text) : Bool := (store.receipts.get (receiptName pkg id)).isSome

def deleted (store : Store) (id : Text) : Bool := (store.deletions.get (tombstoneName pkg id)).isSome

variable (host : Host)

/-- `StoreLock::acquire` -/
def acquireStore : Run Unit := do
  touch host
  Effect.mapError ("cannot open benchmark coordination lock: ".toList ++ ·) (touch host)
  Effect.mapError ("cannot lock benchmark storage: ".toList ++ ·) (touch host)

def hasReceipt (id : Text) : Run Bool :=
  Effect.mapError ("cannot check an accepted benchmark receipt: ".toList ++ ·)
    (query host (receipted pkg · id))

def hasTombstone (id : Text) : Run Bool :=
  Effect.mapError ("cannot check a deleted benchmark record: ".toList ++ ·)
    (query host (deleted pkg · id))

def listDigests : Run (List Text) :=
  Effect.mapError ("cannot read benchmark history: ".toList ++ ·) (query host existingDigests)

/-- The journal a new record gets, unless its id is taken. -/
def pathForValidated (record : Json) (existing : List Text) : Run (Option Text) := do
  if recordDigest pkg record ∈ existing then return none
  if ← hasReceipt pkg host (recordId record) then return none
  if ← hasTombstone pkg host (recordId record) then return none
  return some (journalName pkg record)

/-- `atomic_write` of a journal, and the sync of its folder. -/
def writeJournal (name : Text) (bytes : Bytes) : Run Unit := do
  update host fun store => { store with runs := store.runs.insert name bytes }
  touch host

end AioLM.Benchmark
