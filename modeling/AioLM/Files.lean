import Mathlib.Data.Char
import Mathlib.Data.List.Lex
import AioLM.Effects
import AioLM.KeyMap
import AioLM.TextBytes

/-!
A folder of a file system whose operations happen as a whole or not at all: what
stands at each path below it, and what each operation does there.
-/

set_option autoImplicit false

namespace AioLM.Files

/-- What stands at a path; a file of the same stamp has not been touched. -/
inductive Node where
  | file (content : Bytes) (stamp : Nat)
  | directory
  | link
  deriving DecidableEq

abbrev Tree := KeyMap Text Node

inductive Errno where
  | notFound | exists | notADirectory | isADirectory
  deriving DecidableEq

def parents (path : Text) : List Text :=
  (List.range path.length).filterMap fun i => if path[i]? = some '/' then some (path.take i) else none

def parent (path : Text) : Option Text := (parents path).getLast?

def join (folder name : Text) : Text := folder ++ '/' :: name

namespace Tree

variable (t : Tree)

def isDirectory (path : Text) : Bool := t.get path == some .directory

def content (path : Text) : Option Bytes :=
  match t.get path with
  | some (.file content _) => some content
  | _ => none

/-- `symlink_metadata`: what stands at the path, `none` when nothing does. -/
def inspect (path : Text) : Except Errno (Option Node) :=
  match (parents path).find? fun p => !isDirectory t p with
  | none => .ok (t.get path)
  | some p => if (t.get p).isNone then .ok none else .error .notADirectory

def vacant (path : Text) : Except Errno Unit :=
  if ((parent path).all fun p => isDirectory t p) = false then .error .notFound
  else if (t.get path).isSome then .error .exists
  else .ok ()

def createDirectory (path : Text) : Except Errno Tree :=
  (vacant t path).map fun _ => t.insert path .directory

def createFile (path : Text) (content : Bytes) (stamp : Nat) : Except Errno Tree :=
  (vacant t path).map fun _ => t.insert path (.file content stamp)

/-- A second name of a file. -/
def hardLink (source target : Text) : Except Errno Tree :=
  match t.get source with
  | some (.file content stamp) => createFile t target content stamp
  | some _ => .error .isADirectory
  | none => .error .notFound

def removeFile (path : Text) : Except Errno Tree :=
  match t.get path with
  | none => .error .notFound
  | some .directory => .error .isADirectory
  | some _ => .ok (t.erase path)

/-- A file under another name, in the place of a file that had it. -/
def rename (source target : Text) : Except Errno Tree :=
  match t.get source with
  | some (.file content stamp) =>
    if isDirectory t target then .error .isADirectory
    else .ok ((t.erase source).insert target (.file content stamp))
  | some _ => .error .isADirectory
  | none => .error .notFound

/-- The whole content of a file, new or in the place of an old one. -/
def write (path : Text) (content : Bytes) (stamp : Nat) : Except Errno Tree :=
  if isDirectory t path then .error .isADirectory
  else .ok (t.insert path (.file content stamp))

end Tree

section Changes

variable {t t' : Tree} {path source target : Text} {content : Bytes} {stamp : Nat}

theorem Tree.vacant_ok {u : Unit} (h : Tree.vacant t path = .ok u) : t.get path = none := by
  unfold Tree.vacant at h
  split at h
  · cases h
  · split at h
    · cases h
    · rename_i hnone
      simpa using hnone

theorem map_eq_ok {ε α β : Type} {x : Except ε α} {f : α → β} {b : β} :
    x.map f = .ok b ↔ ∃ a, x = .ok a ∧ f a = b := by
  cases x with
  | error e => simp [Except.map]
  | ok a => simp [Except.map]

theorem Tree.createDirectory_ok (h : Tree.createDirectory t path = .ok t') :
    t.get path = none ∧ t' = t.insert path .directory := by
  obtain ⟨u, hu, rfl⟩ := map_eq_ok.mp h
  exact ⟨Tree.vacant_ok hu, rfl⟩

theorem Tree.createFile_ok (h : Tree.createFile t path content stamp = .ok t') :
    t.get path = none ∧ t' = t.insert path (.file content stamp) := by
  obtain ⟨u, hu, rfl⟩ := map_eq_ok.mp h
  exact ⟨Tree.vacant_ok hu, rfl⟩

theorem Tree.hardLink_ok (h : Tree.hardLink t source target = .ok t') :
    ∃ content stamp, t.get source = some (.file content stamp) ∧ t.get target = none ∧
      t' = t.insert target (.file content stamp) := by
  unfold Tree.hardLink at h
  cases hs : t.get source with
  | none =>
    rw [hs] at h
    cases h
  | some node =>
    rw [hs] at h
    cases node with
    | file content stamp => exact ⟨content, stamp, rfl, Tree.createFile_ok h⟩
    | directory => cases h
    | link => cases h

theorem Tree.removeFile_ok (h : Tree.removeFile t path = .ok t') : t' = t.erase path := by
  unfold Tree.removeFile at h
  split at h
  · cases h
  · cases h
  · exact (Except.ok.inj h).symm

theorem Tree.write_ok (h : Tree.write t path content stamp = .ok t') :
    t' = t.insert path (.file content stamp) := by
  unfold Tree.write at h
  split at h
  · cases h
  · exact (Except.ok.inj h).symm

theorem Tree.content_eq_some :
    Tree.content t path = some content ↔ ∃ stamp, t.get path = some (.file content stamp) := by
  unfold Tree.content
  split
  · rename_i other stamp h
    rw [h]
    simp
  · rename_i h
    simp only [reduceCtorEq, false_iff]
    rintro ⟨stamp, hfile⟩
    exact h _ _ hfile

theorem Tree.inspect_eq_some {node : Node} (h : Tree.inspect t path = .ok (some node)) :
    t.get path = some node := by
  unfold Tree.inspect at h
  split at h
  · exact Except.ok.inj h
  · split at h <;> cases h

end Changes

/-- What the system answers: its message for each error, the operations it fails and
where the request to stop is seen, both by the number of the operation. -/
structure Host where
  message : Errno → Text
  fails : Nat → Option Text := fun _ => none
  cancelled : Nat → Bool := fun _ => false

/-- The folder, the operations so far, and what the program noted down. -/
structure Disk (ν : Type) where
  tree : Tree
  clock : Nat := 0
  notes : List ν := []

abbrev Io (ν : Type) := Effect Text (Disk ν)

section Operations

variable {ν α : Type} (host : Host)

def Disk.tick (d : Disk ν) : Disk ν := { d with clock := d.clock + 1 }

def note (n : ν) : Io ν Unit := modify fun d => { d with notes := d.notes ++ [n] }

/-- The request to stop, as it is seen now. -/
def stopped : Io ν Bool := do
  let d ← get
  modify Disk.tick
  return host.cancelled d.clock

def look (f : Tree → Except Errno α) : Io ν α := do
  let d ← get
  modify Disk.tick
  match host.fails d.clock, f d.tree with
  | some error, _ => throw error
  | none, .error error => throw (host.message error)
  | none, .ok a => return a

/-- One change of the folder; files it makes are stamped with its number. -/
def change (f : Tree → Nat → Except Errno Tree) : Io ν Unit := do
  let d ← get
  modify Disk.tick
  match host.fails d.clock, f d.tree d.clock with
  | some error, _ => throw error
  | none, .error error => throw (host.message error)
  | none, .ok t => modify fun d => { d with tree := t }

end Operations

section Exec

variable {ν α : Type} {host : Host}

@[simp] theorem exec_note (n : ν) (d : Disk ν) :
    Effect.exec (note n) d = (.ok (), { d with notes := d.notes ++ [n] }) := rfl

@[simp] theorem exec_stopped (d : Disk ν) :
    Effect.exec (stopped host) d = (.ok (host.cancelled d.clock), d.tick) := rfl

theorem exec_look (host : Host) (f : Tree → Except Errno α) (d : Disk ν) :
    (∃ error, Effect.exec (look host f) d = (.error error, d.tick)) ∨
      ∃ a, f d.tree = .ok a ∧ Effect.exec (look host f) d = (.ok a, d.tick) := by
  cases hfails : host.fails d.clock with
  | some error => exact .inl ⟨error, by simp [look, Effect.exec_bind, hfails]⟩
  | none =>
    cases hf : f d.tree with
    | error error =>
      exact .inl ⟨host.message error, by simp [look, Effect.exec_bind, hfails, hf]⟩
    | ok a =>
      exact .inr ⟨a, rfl, by simp [look, Effect.exec_bind, Effect.exec_map, hfails, hf, Except.map]⟩

theorem exec_change (host : Host) (f : Tree → Nat → Except Errno Tree) (d : Disk ν) :
    (∃ error, Effect.exec (change host f) d = (.error error, d.tick)) ∨
      ∃ t, f d.tree d.clock = .ok t ∧
        Effect.exec (change host f) d = (.ok (), { d.tick with tree := t }) := by
  cases hfails : host.fails d.clock with
  | some error => exact .inl ⟨error, by simp [change, Effect.exec_bind, hfails]⟩
  | none =>
    cases hf : f d.tree d.clock with
    | error error =>
      exact .inl ⟨host.message error, by simp [change, Effect.exec_bind, hfails, hf]⟩
    | ok t => exact .inr ⟨t, rfl, by simp [change, Effect.exec_bind, hfails, hf]⟩

theorem look_ok {f : Tree → Except Errno α} {d d' : Disk ν} {a : α}
    (h : Effect.exec (look host f) d = (.ok a, d')) : f d.tree = .ok a ∧ d' = d.tick := by
  rcases exec_look host f d with ⟨error, herror⟩ | ⟨b, hb, hok⟩
  · rw [h] at herror
    cases herror
  · rw [h] at hok
    cases hok
    exact ⟨hb, rfl⟩

theorem change_ok {f : Tree → Nat → Except Errno Tree} {d d' : Disk ν} {u : Unit}
    (h : Effect.exec (change host f) d = (.ok u, d')) :
    ∃ t, f d.tree d.clock = .ok t ∧ d' = { d.tick with tree := t } := by
  rcases exec_change host f d with ⟨error, herror⟩ | ⟨t, ht, hok⟩
  · rw [h] at herror
    cases herror
  · rw [h] at hok
    cases hok
    exact ⟨t, ht, rfl⟩

end Exec

end AioLM.Files
