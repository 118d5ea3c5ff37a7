import AioLM.BenchmarkFiles
import AioLM.Lists

/-!
Import of benchmark records: each one becomes a finished journal of its own.
-/

set_option autoImplicit false

namespace AioLM.Benchmark

open Fallible Json

variable {π : Type} (pkg : Packages π) (host : Host)

/-- `validated::batch`: every record is checked before any is stored. -/
def batch (records : List Json) : Except Text (List Json) := do
  require (records.length ≤ 100) "import at most 100 benchmark records at a time".toList
  records.forM (validateRecord pkg)
  return records

def importEvents (record : Json) : Except Text (List Entry) := do
  let result ← orError ((record.get "result").bind asObject) "benchmark result is missing".toList
  return [.start record (some .legacy), .finish (.object (removeField "rows" result))]

def importRecords : List Text → Nat → List Json → Run Nat
  | _, imported, [] => pure imported
  | existing, imported, record :: records => do
    match ← pathForValidated pkg host record existing with
    | none => importRecords existing imported records
    | some path => do
      let events ← Effect.ofExcept (importEvents record)
      writeJournal host path (events.flatMap (encoded pkg))
      importRecords (recordDigest pkg record :: existing) (imported + 1) records

def importBatch (records : List Json) : Run Nat := do
  let records ← Effect.ofExcept (batch pkg records)
  acquireStore host
  let existing ← listDigests host
  importRecords pkg host existing 0 records

def taken (store : Store) (existing : List Text) (record : Json) : Prop :=
  recordDigest pkg record ∈ existing ∨ receipted pkg store (recordId record) = true ∨
    deleted pkg store (recordId record) = true

instance (store : Store) (existing : List Text) (record : Json) :
    Decidable (taken pkg store existing record) := by
  unfold taken
  infer_instance

def fresh (store : Store) : List Text → List Json → List Json
  | _, [] => []
  | existing, record :: records =>
    if taken pkg store existing record then fresh store existing records
    else record :: fresh store (recordDigest pkg record :: existing) records

def importedJournal (record : Json) : Bytes :=
  match importEvents record with
  | .ok events => events.flatMap (encoded pkg)
  | .error _ => []

def journals (records : List Json) : List (Text × Bytes) :=
  records.map fun record => (journalName pkg record, importedJournal pkg record)

def addJournals (store : Store) (added : List (Text × Bytes)) : Store where
  runs := added.foldl (fun runs e => runs.insert e.1 e.2) store.runs
  receipts := store.receipts
  recentCache := store.recentCache
  deletions := store.deletions

section Effects

variable {pkg} {host : Host} {d d' : Disk}

/-- No other run is writing. -/
def Quiet (host : Host) : Prop := ∀ n, host.others n = []

theorem Quiet.store_advance (h : Quiet host) (d : Disk) : (d.advance host).store = d.store := by
  rw [Disk.advance, h]
  rfl

theorem Quiet.query_ok {α : Type} (h : Quiet host) {f : Store → α} {a : α}
    (hok : Effect.exec (query host f) d = (.ok a, d')) : a = f d.store ∧ d'.store = d.store := by
  obtain ⟨ha, rfl⟩ := Benchmark.query_ok hok
  rw [h.store_advance] at ha
  exact ⟨ha, h.store_advance d⟩

theorem Quiet.update_ok (h : Quiet host) {f : Store → Store} {u : Unit}
    (hok : Effect.exec (update host f) d = (.ok u, d')) : d'.store = f d.store := by
  rw [Benchmark.update_ok hok, h.store_advance]

theorem Quiet.acquireStore_ok (h : Quiet host) {u : Unit}
    (hok : Effect.exec (acquireStore host) d = (.ok u, d')) : d'.store = d.store := by
  obtain ⟨_, d₁, h₁, hrest⟩ := Effect.bind_ok.mp hok
  obtain ⟨_, d₂, h₂, h₃⟩ := Effect.bind_ok.mp hrest
  exact (h.update_ok (Effect.mapError_ok.mp h₃)).trans
    ((h.update_ok (Effect.mapError_ok.mp h₂)).trans (h.update_ok h₁))

theorem Quiet.pathForValidated_ok (h : Quiet host) {record : Json} {existing : List Text}
    {path : Option Text}
    (hok : Effect.exec (pathForValidated pkg host record existing) d = (.ok path, d')) :
    d'.store = d.store ∧
      path = if taken pkg d.store existing record then none else some (journalName pkg record) := by
  unfold pathForValidated at hok
  by_cases hexisting : recordDigest pkg record ∈ existing
  · rw [if_pos hexisting] at hok
    cases hok
    exact ⟨rfl, (if_pos (.inl hexisting)).symm⟩
  · rw [if_neg hexisting] at hok
    obtain ⟨receipt, d₁, hasked, hrest⟩ := Effect.bind_ok.mp hok
    obtain ⟨hreceipt, hd₁⟩ := h.query_ok (Effect.mapError_ok.mp hasked)
    cases receipt with
    | true =>
      cases hrest
      exact ⟨hd₁, (if_pos (.inr (.inl hreceipt.symm))).symm⟩
    | false =>
      obtain ⟨tombstone, d₂, hasked', hlast⟩ := Effect.bind_ok.mp hrest
      obtain ⟨htombstone, hd₂⟩ := h.query_ok (Effect.mapError_ok.mp hasked')
      rw [hd₁] at htombstone
      cases tombstone with
      | true =>
        cases hlast
        exact ⟨hd₂.trans hd₁, (if_pos (.inr (.inr htombstone.symm))).symm⟩
      | false =>
        cases hlast
        refine ⟨hd₂.trans hd₁, (if_neg ?_).symm⟩
        rintro (h' | h' | h')
        · exact hexisting h'
        · exact absurd (hreceipt.trans h') (by decide)
        · exact absurd (htombstone.trans h') (by decide)

theorem Quiet.writeJournal_ok (h : Quiet host) {name : Text} {bytes : Bytes} {u : Unit}
    (hok : Effect.exec (writeJournal host name bytes) d = (.ok u, d')) :
    d'.store = { d.store with runs := d.store.runs.insert name bytes } := by
  obtain ⟨_, d₁, h₁, h₂⟩ := Effect.bind_ok.mp hok
  exact (h.update_ok h₂).trans (h.update_ok h₁)

theorem fresh_runs (store : Store) (runs : KeyMap Text Bytes) (existing : List Text)
    (records : List Json) :
    fresh pkg { store with runs := runs } existing records = fresh pkg store existing records := by
  induction records generalizing existing with
  | nil => rfl
  | cons record records ih =>
    rw [fresh, fresh, ih, ih]
    rfl

theorem Quiet.importRecords_ok (h : Quiet host) {records : List Json} {existing : List Text}
    {n m : Nat} (hok : Effect.exec (importRecords pkg host existing n records) d = (.ok m, d')) :
    m = n + (fresh pkg d.store existing records).length ∧
      d'.store = addJournals d.store (journals pkg (fresh pkg d.store existing records)) := by
  induction records generalizing d existing n with
  | nil =>
    cases hok
    exact ⟨rfl, rfl⟩
  | cons record records ih =>
    rw [importRecords] at hok
    obtain ⟨path, d₁, hpath, hrest⟩ := Effect.bind_ok.mp hok
    obtain ⟨hd₁, rfl⟩ := h.pathForValidated_ok hpath
    rw [fresh]
    by_cases htaken : taken pkg d.store existing record
    · rw [if_pos htaken] at hrest ⊢
      rw [← hd₁]
      exact ih hrest
    · rw [if_neg htaken] at hrest ⊢
      obtain ⟨events, d₂, hmade, hwrite⟩ := Effect.bind_ok.mp hrest
      obtain ⟨hevents, rfl⟩ := Effect.ofExcept_ok.mp hmade
      obtain ⟨_, d₃, hwritten, hmore⟩ := Effect.bind_ok.mp hwrite
      have hd₃ := h.writeJournal_ok hwritten
      rw [hd₁] at hd₃
      obtain ⟨hm, hd'⟩ := ih hmore
      rw [hd₃, fresh_runs] at hm hd'
      have hjournal : importedJournal pkg record = events.flatMap (encoded pkg) := by
        rw [importedJournal, hevents]
      refine ⟨by rw [hm, List.length_cons]; omega, ?_⟩
      rw [hd', journals, journals, List.map_cons, addJournals, addJournals, List.foldl_cons, hjournal]

end Effects

section Names

variable {pkg} {store : Store} {existing : List Text} {records : List Json} {record : Json}

variable (pkg) in
theorem splitOnce_journalName (record : Json) :
    ∃ created, Text.splitOnce '-' (journalName pkg record) =
      some (created, recordDigest pkg record) := by
  refine ⟨_, Text.splitOnce_append (fun hmem => ?_) _⟩
  rw [List.leftpad, List.mem_append] at hmem
  rcases hmem with hzero | hdigit
  · exact absurd (List.eq_of_mem_replicate hzero) (by decide)
  · exact absurd (Nat.isDigit_of_mem_toDigits (by decide) (by decide) hdigit) (by decide)

theorem journalName_inj {record' : Json} (h : journalName pkg record = journalName pkg record') :
    recordDigest pkg record = recordDigest pkg record' := by
  obtain ⟨created, hsplit⟩ := splitOnce_journalName pkg record
  obtain ⟨created', hsplit'⟩ := splitOnce_journalName pkg record'
  rw [h, hsplit'] at hsplit
  exact (Prod.mk.inj (Option.some.inj hsplit)).2.symm

theorem isJournal_journalName (record : Json) : isJournal (journalName pkg record) = true := by
  have hsuffix : jsonl <:+ journalName pkg record :=
    ⟨(Nat.toDigits 10 (((record.get "createdAt").bind asU64).getD 0)).leftpad 16 '0' ++
      '-' :: digest pkg (recordId record), by rw [journalName, recordDigest]; simp⟩
  have hne : journalName pkg record ≠ jsonl := by
    intro heq
    have hlength := congrArg List.length heq
    rw [journalName, recordDigest, List.length_append, List.length_cons, List.length_append]
      at hlength
    omega
  rw [isJournal, Bool.and_eq_true, List.isSuffixOf_iff_suffix, decide_eq_true_iff]
  exact ⟨hsuffix, hne⟩

theorem mem_existingDigests (h : (store.runs.get (journalName pkg record)).isSome) :
    recordDigest pkg record ∈ existingDigests store := by
  obtain ⟨bytes, hbytes⟩ := Option.isSome_iff_exists.mp h
  obtain ⟨created, hsplit⟩ := splitOnce_journalName pkg record
  refine List.mem_filterMap.mpr ⟨journalName pkg record, ?_, by rw [hsplit]; rfl⟩
  rw [Store.files, List.mem_reverse, List.mem_filter]
  exact ⟨List.mem_map.mpr ⟨_, KeyMap.get_eq_some.mp hbytes, rfl⟩, isJournal_journalName record⟩

theorem mem_of_mem_fresh (h : record ∈ fresh pkg store existing records) : record ∈ records := by
  induction records generalizing existing with
  | nil => cases h
  | cons r records ih =>
    rw [fresh] at h
    split at h
    · exact List.mem_cons_of_mem r (ih h)
    · rcases List.mem_cons.mp h with rfl | h
      · exact List.mem_cons_self
      · exact List.mem_cons_of_mem r (ih h)

theorem not_taken_of_fresh (h : record ∈ fresh pkg store existing records) :
    ¬ taken pkg store existing record := by
  induction records generalizing existing with
  | nil => cases h
  | cons r records ih =>
    rw [fresh] at h
    split at h
    · exact ih h
    · rename_i hnot
      rcases List.mem_cons.mp h with rfl | h
      · exact hnot
      · refine fun htaken => ih h (htaken.imp_left ?_)
        exact List.mem_cons_of_mem _

theorem nodup_fresh (store : Store) (existing : List Text) (records : List Json) :
    ((fresh pkg store existing records).map (recordDigest pkg)).Nodup := by
  induction records generalizing existing with
  | nil => exact .nil
  | cons r records ih =>
    rw [fresh]
    split
    · exact ih existing
    · rw [List.map_cons, List.nodup_cons]
      refine ⟨fun hmem => ?_, ih _⟩
      obtain ⟨r', hr', hsame⟩ := List.mem_map.mp hmem
      exact not_taken_of_fresh hr' (.inl (hsame ▸ List.mem_cons_self))

variable (pkg) in
theorem nodup_journals (store : Store) (existing : List Text) (records : List Json) :
    ((journals pkg (fresh pkg store existing records)).map (·.1)).Nodup := by
  rw [journals, List.map_map, List.Nodup, List.pairwise_map]
  refine (List.pairwise_map.mp (nodup_fresh store existing records)).imp ?_
  exact fun hne heq => hne (journalName_inj heq)

theorem get_addJournals_of_fresh (h : record ∈ fresh pkg store existing records) :
    (addJournals store (journals pkg (fresh pkg store existing records))).runs.get
      (journalName pkg record) = some (importedJournal pkg record) := by
  have hmem : (journalName pkg record, importedJournal pkg record) ∈
      journals pkg (fresh pkg store existing records) := List.mem_map.mpr ⟨record, h, rfl⟩
  have hnodup := nodup_journals pkg store existing records
  rw [addJournals, KeyMap.get_foldl_insert hnodup, KeyMap.find_of_mem_nodup hnodup hmem]
  rfl

theorem get_addJournals_of_present {name : Text} {content : Bytes}
    (h : store.runs.get name = some content) :
    (addJournals store (journals pkg (fresh pkg store (existingDigests store) records))).runs.get
      name = some content := by
  rw [addJournals, KeyMap.get_foldl_insert (nodup_journals pkg store _ records), KeyMap.find_eq_none, h]
  · rfl
  · rintro e he rfl
    obtain ⟨record, hrecord, rfl⟩ := List.mem_map.mp he
    exact not_taken_of_fresh hrecord (.inl (mem_existingDigests (by rw [h]; rfl)))

end Names

section ReadBack

variable {pkg} {record : Json}

/-- The readers give back both events of the record. -/
def Reads (pkg : Packages π) (record : Json) : Prop :=
  ∀ events, importEvents record = .ok events → ∀ entry ∈ events, Readable pkg entry

theorem importEvents_valid (h : validateRecord pkg record = .ok ()) :
    ∃ fields result, record = .object fields ∧
      lookup "result".toList fields = some (.object result) ∧
      importEvents record =
        .ok [.start record (some .legacy), .finish (.object (removeField "rows" result))] := by
  obtain ⟨rows, hrows⟩ := validateRecord_rows h
  obtain ⟨fields, result, rfl, hresult, -⟩ := pointer_eq_some hrows
  refine ⟨fields, result, rfl, hresult, ?_⟩
  have hget : (Json.object fields).get "result" = some (.object result) := hresult
  rw [importEvents, hget]
  rfl

theorem mergeFields_removeField {result : List (Text × Json)} (hsorted : Sorted result) :
    mergeFields (removeField "rows" result) result = result := by
  refine mergeFields_self hsorted fun e he _ => ?_
  have hmem : e ∈ result := (List.mem_filter.mp he).1
  rw [← find_eq_lookup]
  exact KeyMap.find_of_mem hsorted hmem

theorem updateResult_removeField {fields result : List (Text × Json)}
    (hordered : (Json.object fields).Ordered)
    (hresult : lookup "result".toList fields = some (.object result)) :
    updateResult (some (.object fields)) (.object (removeField "rows" result)) =
      .ok (.object fields) := by
  have hinner : Sorted result := (hordered.lookup hresult).sorted
  have hsame : insertField "result" (.object result) fields = fields :=
    hordered.sorted.alter_self hresult
  simp only [updateResult, Option.bind_some, mapResult_object hresult, Option.map_some,
    orError_some, asObject, mergeFields_removeField hinner, hsame, bind, Except.bind]

theorem replayRun_importedJournal (hfloat : ∀ x, '\n' ∉ pkg.floatText x)
    (hvalid : validateRecord pkg record = .ok ()) (hordered : record.Ordered)
    (hreads : Reads pkg record) (hfits : (importedJournal pkg record).length ≤ maxJournalBytes) :
    replayRun pkg (importedJournal pkg record) = .ok ⟨record, some .legacy, true⟩ := by
  obtain ⟨fields, result, rfl, hresult, hevents⟩ := importEvents_valid hvalid
  have hjournal : importedJournal pkg (.object fields) =
      [.start (.object fields) (some .legacy),
        .finish (.object (removeField "rows" result))].flatMap (encoded pkg) ++ [] := by
    rw [importedJournal, hevents, List.append_nil]
  have hstate : [Entry.start (.object fields) (some .legacy),
      .finish (.object (removeField "rows" result))].foldlM (replayEntry pkg) {} =
        .ok { record := some (.object fields), origin := some .legacy, finished := true } := by
    simp only [List.foldlM_cons, List.foldlM_nil, replayEntry, require, Option.isNone_none, if_true,
      hvalid, updateResult_removeField hordered hresult, bind, Except.bind, pure, Except.pure]
  rw [hjournal] at hfits ⊢
  exact replayRun_joinLines hfloat (hreads _ hevents) List.not_mem_nil hfits hstate rfl rfl hvalid

end ReadBack

def resultRest (record : Json) : Json :=
  .object (removeField "rows" (((record.get "result").bind asObject).getD []))

/-- The record and its result without the rows, with the 73 bytes around them. -/
def importSize (record : Json) : Nat :=
  (toVec pkg record).length + (toVec pkg (resultRest record)).length + 73

section Sizes

variable {pkg} {floatText : Float → Text}

theorem size_start (record : Json) :
    size floatText (Entry.start record (some .legacy)).json = size floatText record + 44 := by
  have hkind : (quote "kind".toList).utf8Len = 6 := by decide
  have hrecord : (quote "record".toList).utf8Len = 8 := by decide
  have horigin : (quote "origin".toList).utf8Len = 8 := by decide
  have hstart : (compact floatText (.text "start")).utf8Len = 7 := by
    rw [text, compact_string]
    decide
  have hlegacy : (compact floatText (.text "legacy")).utf8Len = 8 := by
    rw [text, compact_string]
    decide
  have hcolon : Char.utf8Size ':' = 1 := by decide
  have hcomma : Char.utf8Size ',' = 1 := by decide
  simp only [Entry.json, JournalOrigin.json, Option.map_some, Option.toList_some, List.cons_append,
    List.nil_append, size_object, compactFields_cons, reduceCtorEq, if_true, if_false,
    Text.utf8Len_append, Text.utf8Len_cons, Text.utf8Len_nil, hkind, hrecord, horigin, hstart,
    hlegacy, hcolon, hcomma]
  rw [size]
  omega

theorem size_finish (result : Json) :
    size floatText (Entry.finish result).json = size floatText result + 27 := by
  have hkind : (quote "kind".toList).utf8Len = 6 := by decide
  have hresult : (quote "result".toList).utf8Len = 8 := by decide
  have hfinish : (compact floatText (.text "finish")).utf8Len = 8 := by
    rw [text, compact_string]
    decide
  have hcolon : Char.utf8Size ':' = 1 := by decide
  have hcomma : Char.utf8Size ',' = 1 := by decide
  simp only [Entry.json, size_object, compactFields_cons, reduceCtorEq, if_true, if_false,
    Text.utf8Len_append, Text.utf8Len_cons, Text.utf8Len_nil, hkind, hresult, hfinish, hcolon,
    hcomma]
  rw [size]
  omega

theorem length_importedJournal {record : Json} (hvalid : validateRecord pkg record = .ok ()) :
    (importedJournal pkg record).length = importSize pkg record := by
  obtain ⟨fields, result, rfl, hresult, hevents⟩ := importEvents_valid hvalid
  have hget : (Json.object fields).get "result" = some (.object result) := hresult
  have hline (entry : Entry) :
      (encoded pkg entry).length = size pkg.floatText entry.json + 1 := by
    rw [encoded, List.length_append, Entry.line, toVec, length_encode_compact, List.length_singleton]
  rw [importedJournal, hevents, importSize, resultRest, hget, toVec, toVec, length_encode_compact,
    length_encode_compact]
  simp only [List.flatMap_cons, List.flatMap_nil, List.length_append, List.length_nil, hline,
    size_start, size_finish, Option.bind_some, asObject, Option.getD_some]
  omega

end Sizes

/-- What an accepted import has done: every record it counts can be read back as it was
given, and nothing that was there has changed. -/
structure ReadBack (before after : Store) (records : List Json) (imported : Nat) : Prop where
  counted : imported = (fresh pkg before (existingDigests before) records).length
  readable : ∀ record ∈ fresh pkg before (existingDigests before) records,
    ∃ bytes, after.runs.get (journalName pkg record) = some bytes ∧
      replayRun pkg bytes = .ok ⟨record, some .legacy, true⟩
  kept : ∀ name content, before.runs.get name = some content →
    after.runs.get name = some content
  receipts : after.receipts = before.receipts
  recentCache : after.recentCache = before.recentCache
  deletions : after.deletions = before.deletions

section Batch

variable {pkg} {host : Host} {d d' : Disk} {records : List Json} {n : Nat}

theorem batch_ok {checked : List Json} (h : batch pkg records = .ok checked) :
    checked = records ∧ ∀ record ∈ records, validateRecord pkg record = .ok () := by
  simp only [batch, bind_eq_ok, require_eq_ok, exists_const] at h
  obtain ⟨_, _, hvalid, hchecked⟩ := h
  exact ⟨(Except.ok.inj hchecked).symm, forM_eq_ok.mp hvalid⟩

theorem Quiet.importBatch_ok (h : Quiet host)
    (hok : Effect.exec (importBatch pkg host records) d = (.ok n, d')) :
    (∀ record ∈ records, validateRecord pkg record = .ok ()) ∧
      n = (fresh pkg d.store (existingDigests d.store) records).length ∧
      d'.store = addJournals d.store
        (journals pkg (fresh pkg d.store (existingDigests d.store) records)) := by
  obtain ⟨checked, d₁, hbatch, hrest⟩ := Effect.bind_ok.mp hok
  obtain ⟨hchecked, rfl⟩ := Effect.ofExcept_ok.mp hbatch
  obtain ⟨rfl, hvalid⟩ := batch_ok hchecked
  obtain ⟨_, d₂, hlock, hmore⟩ := Effect.bind_ok.mp hrest
  obtain ⟨existing, d₃, hlist, himport⟩ := Effect.bind_ok.mp hmore
  have hd₂ := h.acquireStore_ok hlock
  obtain ⟨rfl, hd₃⟩ := h.query_ok (Effect.mapError_ok.mp hlist)
  obtain ⟨hn, hd'⟩ := h.importRecords_ok himport
  rw [hd₃, hd₂] at hn hd'
  exact ⟨hvalid, by omega, hd'⟩

theorem importBatch_invalid (host : Host) (d : Disk)
    (h : ∃ record ∈ records, validateRecord pkg record ≠ .ok ()) :
    (Effect.exec (importBatch pkg host records) d).2 = d := by
  obtain ⟨record, hrecord, hinvalid⟩ := h
  rw [importBatch, Effect.exec_bind, Effect.exec_ofExcept]
  cases hbatch : batch pkg records with
  | error e => rfl
  | ok checked => exact absurd ((batch_ok hbatch).2 record hrecord) hinvalid

theorem Quiet.importSize_le (h : Quiet host)
    (hok : Effect.exec (importBatch pkg host records) d = (.ok n, d'))
    (hback : ReadBack pkg d.store d'.store records n) :
    ∀ record ∈ fresh pkg d.store (existingDigests d.store) records,
      importSize pkg record ≤ maxJournalBytes := by
  intro record hrecord
  obtain ⟨hvalid, -, hstore⟩ := h.importBatch_ok hok
  by_contra hlong
  obtain ⟨bytes, hbytes, hreplay⟩ := hback.readable record hrecord
  rw [← length_importedJournal (hvalid record (mem_of_mem_fresh hrecord))] at hlong
  rw [hstore, get_addJournals_of_fresh hrecord] at hbytes
  rw [← Option.some.inj hbytes, replayRun_too_long (by omega)] at hreplay
  cases hreplay

/-- A batch with an invalid record changes no file, and an accepted one can be read back
exactly when the two events of every stored record are within the limit of a journal. -/
theorem import_read_back_iff (h : Quiet host) (hfloat : ∀ x, '\n' ∉ pkg.floatText x)
    (hordered : ∀ record ∈ records, record.Ordered)
    (hreads : ∀ record ∈ records, Reads pkg record) :
    ((∃ record ∈ records, validateRecord pkg record ≠ .ok ()) →
        (Effect.exec (importBatch pkg host records) d).2 = d) ∧
      (Effect.exec (importBatch pkg host records) d = (.ok n, d') →
        (ReadBack pkg d.store d'.store records n ↔
          ∀ record ∈ fresh pkg d.store (existingDigests d.store) records,
            importSize pkg record ≤ maxJournalBytes)) := by
  refine ⟨importBatch_invalid host d, fun hok => ⟨h.importSize_le hok, fun hfits => ?_⟩⟩
  obtain ⟨hvalid, hn, hstore⟩ := h.importBatch_ok hok
  refine ⟨hn, fun record hrecord => ?_, fun name content hname => ?_, ?_, ?_, ?_⟩
  · have hmem := mem_of_mem_fresh hrecord
    have hlength := length_importedJournal (hvalid record hmem) ▸ hfits record hrecord
    refine ⟨importedJournal pkg record, ?_, replayRun_importedJournal hfloat
      (hvalid record hmem) (hordered record hmem) (hreads record hmem) hlength⟩
    rw [hstore]
    exact get_addJournals_of_fresh hrecord
  · rw [hstore]
    exact get_addJournals_of_present hname
  all_goals
    rw [hstore]
    rfl

end Batch

def samplePackages (known : List Entry) : Packages Unit where
  floatText _ := "0.0".toList
  finite _ := true
  nonnegative _ := true
  sha256 _ := "ca978112ca1bbdcafac231b39a23dc4da786eff8147c4e72b9807785afee48bb".toList
  readEntry bytes :=
    match known.find? fun entry =>
      TextBytes.encode (entry.json.compact fun _ => "0.0".toList) ++ [newline] = bytes with
    | some entry => .ok entry
    | none => .error "expected value at line 1 column 1".toList
  refusal _ := "invalid type".toList
  readProvenance _ := .error "missing field".toList
  provenanceJson _ := .null
  validateProvenance _ _ := .error "invalid serving provenance".toList
  workload _ := ⟨[], 0, [], 0, false, false⟩
  memoryUnavailable _ := true
  legacyProvenance _ := .error "missing field".toList

def servingRequest : Json :=
  .object [
    ("concurrencies".toList, .array [Json.int 1]),
    ("context_profile".toList, .text "novel_en"),
    ("max_output_tokens".toList, Json.int 128),
    ("method".toList, .object [("id".toList, .text "openai-chat-serving"),
      ("version".toList, Json.int 1)]),
    ("prompt_bytes".toList, .array [Json.int 256]),
    ("repetitions".toList, Json.int 1),
    ("request_usage".toList, .bool false),
    ("run_id".toList, .text "a"),
    ("warmup".toList, .bool false)]

def failedResult (message : Json) : List (Text × Json) :=
  [("args".toList, .array []), ("message".toList, message), ("rows".toList, .array []),
    ("run_id".toList, .text "a"), ("status".toList, .text "failed")]

def recordFields (result : Json) : List (Text × Json) :=
  [("createdAt".toList, Json.int 1), ("id".toList, .text "a"), ("model".toList, .text "m"),
    ("request".toList, servingRequest), ("result".toList, result),
    ("schemaVersion".toList, Json.int 2)]

def failedRecord (message : Json) : Json :=
  .object (recordFields (.object (failedResult message)))

def failedEvents (message : Json) : List Entry :=
  [.start (failedRecord message) (some .legacy), .finish (resultRest (failedRecord message))]

section Samples

theorem importEvents_failedRecord (message : Json) :
    importEvents (failedRecord message) = .ok (failedEvents message) := rfl

theorem readable_of_known {known : List Entry}
    (h : (known.map (encoded (samplePackages known))).Nodup) {entry : Entry} (hentry : entry ∈ known) :
    Readable (samplePackages known) entry := by
  have hfind := Lists.find_key_eq h hentry
  have hread : (samplePackages known).readEntry (encoded (samplePackages known) entry) =
      match known.find? fun e =>
        encoded (samplePackages known) e = encoded (samplePackages known) entry with
      | some e => .ok e
      | none => .error "expected value at line 1 column 1".toList := rfl
  rw [Readable, hread, hfind]

theorem newline_sample (known : List Entry) (x : Float) :
    '\n' ∉ (samplePackages known).floatText x := by
  change '\n' ∉ "0.0".toList
  decide

theorem reads_failedRecord (message : Json) :
    Reads (samplePackages (failedEvents message)) (failedRecord message) := by
  intro events hevents entry hentry
  rw [importEvents_failedRecord] at hevents
  cases hevents
  refine readable_of_known ?_ hentry
  rw [failedEvents, List.map_cons, List.map_singleton, List.nodup_cons]
  refine ⟨fun hmem => ?_, List.nodup_singleton _⟩
  -- The tenth byte is the first letter of the kind.
  have hsame := congrArg (fun bytes => bytes[9]?) (List.mem_singleton.mp hmem)
  have hdifferent : some (115 : UInt8) = some 102 := hsame
  exact absurd hdifferent (by decide)

theorem failedRecord_ordered {message : Json} (h : message.Ordered) :
    (failedRecord message).Ordered := by
  simp [failedRecord, recordFields, failedResult, servingRequest, Ordered, OrderedItems,
    OrderedFields, Sorted, Json.text, Json.int, h]
  refine ⟨⟨?_, ?_, ?_⟩, ?_⟩
  all_goals
    repeat' apply And.intro
    all_goals decide

theorem size_failedRecord (floatText : Float → Text) (message : Json) :
    size floatText (failedRecord message) + 4 =
      size floatText (failedRecord .null) + size floatText message := by
  have hordered : (failedRecord .null).Ordered := failedRecord_ordered (by simp [Ordered])
  have hrecord : Sorted (recordFields (.object (failedResult .null))) := hordered.sorted
  have hfields : Sorted (failedResult .null) :=
    (hordered.lookup (k := "result".toList) rfl).sorted
  have hinner := size_insertField floatText "message" message
    hfields rfl
  have houter := size_insertField floatText "result"
    (.object (failedResult message)) hrecord rfl
  have hnull : size floatText .null = 4 := by
    rw [size, compact_null]
    decide
  have hresult : insertField "message" message (failedResult .null) = failedResult message := rfl
  have hsame : insertField "result" (.object (failedResult message))
      (recordFields (.object (failedResult .null))) =
        recordFields (.object (failedResult message)) := rfl
  rw [hresult, hnull] at hinner
  rw [hsame] at houter
  rw [failedRecord, failedRecord]
  omega

def parsedRequest : PerformanceBenchRequest where
  runId := "a".toList
  method := ⟨"openai-chat-serving".toList, 1⟩
  contextProfile := "novel_en".toList
  promptBytes := [256]
  maxOutputTokens := 128
  concurrencies := [1]
  repetitions := 1
  warmup := false
  requestUsage := false

theorem validateRecord_failedRecord {pkg : Packages Unit} {message : Text}
    (h : size pkg.floatText (failedRecord (.string message)) ≤ maxJournalBytes) :
    validateRecord pkg (failedRecord (.string message)) = .ok () := by
  have hschema : ((failedRecord (.string message)).get "schemaVersion").bind asU64 = some 2 := rfl
  have hrequest : PerformanceBenchRequest.ofJson servingRequest = some parsedRequest := rfl
  have hvalid : validateRequest parsedRequest = .ok parsedRequest := rfl
  have hfits : resultFits (failedRecord (.string message)) "a".toList := ⟨rfl, rfl, rfl, rfl⟩
  have hstatus : resultStatus (failedRecord (.string message)) ≠ some "complete".toList := by
    have hfailed : resultStatus (failedRecord (.string message)) = some "failed".toList := rfl
    rw [hfailed]
    decide
  rw [validateRecord, if_pos hschema]
  simp only [validateServingRecord, bind_eq_ok, orError_eq_ok, require_eq_ok]
  refine ⟨"a".toList, rfl, servingRequest, rfl, parsedRequest, hrequest, parsedRequest, hvalid, [],
    rfl, (), ⟨rfl, by decide, rfl, hfits⟩, [], rfl, (), rfl, (), fun hc => absurd hc hstatus, ?_⟩
  rw [toVec, length_encode_compact]
  exact h

theorem exec_importBatch_one {pkg : Packages Unit} {message : Json}
    (hvalid : validateRecord pkg (failedRecord message) = .ok ()) :
    ∃ d', Effect.exec (importBatch pkg {} [failedRecord message]) {} = (.ok 1, d') := by
  have hbatch : batch pkg [failedRecord message] = .ok [failedRecord message] := by
    have hall : [failedRecord message].forM (validateRecord pkg) = .ok () :=
      forM_eq_ok.mpr (List.forall_mem_singleton.mpr hvalid)
    rw [batch, hall]
    rfl
  refine ⟨⟨addJournals {} (journals pkg [failedRecord message]), 8⟩, ?_⟩
  rw [importBatch, hbatch]
  rfl

theorem fresh_failedRecord (pkg : Packages Unit) (message : Json) :
    fresh pkg {} (existingDigests {}) [failedRecord message] = [failedRecord message] := rfl

end Samples

theorem import_read_back_short : ∃ (pkg : Packages Unit) (d' : Disk),
    Effect.exec (importBatch pkg {} [failedRecord (.text "no device")]) {} = (.ok 1, d') ∧
      ReadBack pkg {} d'.store [failedRecord (.text "no device")] 1 := by
  have hsize : size (fun _ => "0.0".toList) (failedRecord (.text "no device")) ≤ 1000 := by
    decide +kernel
  have hordered : (failedRecord (.text "no device")).Ordered :=
    failedRecord_ordered (by simp [Ordered, Json.text])
  let pkg := samplePackages (failedEvents (.text "no device"))
  have hvalid : validateRecord pkg (failedRecord (.text "no device")) = .ok () :=
    validateRecord_failedRecord (Nat.le_trans hsize (by decide))
  obtain ⟨d', hd'⟩ := exec_importBatch_one hvalid
  refine ⟨pkg, d', hd', ?_⟩
  refine ((import_read_back_iff (fun _ => rfl) (newline_sample _)
    (List.forall_mem_singleton.mpr hordered)
    (List.forall_mem_singleton.mpr (reads_failedRecord _))).2 hd').mpr ?_
  rw [fresh_failedRecord, List.forall_mem_singleton]
  decide +kernel

/-- The message of a run that failed, larger than half a journal. -/
def longMessage : Json := .string (List.replicate 9000000 'a')

/-- A record of nine megabytes is accepted, and its journal is too long to be read. -/
theorem long_record_not_read_back : ∃ pkg : Packages Unit,
    (∀ x, '\n' ∉ pkg.floatText x) ∧ (failedRecord longMessage).Ordered ∧
      Reads pkg (failedRecord longMessage) ∧
      ∃ d', Effect.exec (importBatch pkg {} [failedRecord longMessage]) {} = (.ok 1, d') ∧
        ¬ ReadBack pkg {} d'.store [failedRecord longMessage] 1 := by
  have hmessage : size (fun _ => "0.0".toList) longMessage = 9000002 :=
    size_string_replicate (by decide) (by decide) 9000000
  have hshort : size (fun _ => "0.0".toList) (failedRecord .null) ≤ 1000 := by decide +kernel
  have hrecord := size_failedRecord (fun _ => "0.0".toList) longMessage
  have hrest : Sorted [("args".toList, Json.array []), ("message".toList, .null),
      ("run_id".toList, .text "a"), ("status".toList, .text "failed")] :=
    List.pairwise_map.mp (by decide)
  have hresult := size_insertField (fun _ => "0.0".toList) "message"
    longMessage hrest rfl
  have hsame : Json.object (insertField "message" longMessage
      [("args".toList, Json.array []), ("message".toList, .null), ("run_id".toList, .text "a"),
        ("status".toList, .text "failed")]) = resultRest (failedRecord longMessage) := rfl
  rw [hsame] at hresult
  have hnull : size (fun _ => "0.0".toList) .null = 4 := by decide +kernel
  let pkg := samplePackages (failedEvents longMessage)
  have hvalid : validateRecord pkg (failedRecord longMessage) = .ok () := by
    refine validateRecord_failedRecord ?_
    change size (fun _ => "0.0".toList) (failedRecord longMessage) ≤ 16777216
    omega
  obtain ⟨d', hd'⟩ := exec_importBatch_one hvalid
  have hordered : (failedRecord longMessage).Ordered :=
    failedRecord_ordered (by rw [longMessage, Ordered.eq_def]; trivial)
  refine ⟨pkg, newline_sample _, hordered, reads_failedRecord _, d', hd', fun hback => ?_⟩
  have hfits := Quiet.importSize_le (fun _ => rfl) hd' hback (failedRecord longMessage)
    (by rw [fresh_failedRecord]; exact List.mem_singleton_self _)
  rw [importSize, toVec, toVec, length_encode_compact, length_encode_compact] at hfits
  change size (fun _ => "0.0".toList) (failedRecord longMessage) +
    size (fun _ => "0.0".toList) (resultRest (failedRecord longMessage)) + 73 ≤ 16777216 at hfits
  omega

end AioLM.Benchmark
