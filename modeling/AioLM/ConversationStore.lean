import AioLM.ConversationImages
import AioLM.Runs

/-!
The conversation store over its runs: what every operation leaves of a saved
conversation, and what a load makes of it.
-/

set_option autoImplicit false

namespace AioLM.Conversations

open Fallible Runs

variable {pkg : Packages} {D : Set Bytes} {disk : Disk}

theorem encode_injective {a b : Text} (h : TextBytes.encode a = TextBytes.encode b) : a = b := by
  have hback := congrArg TextBytes.decode h
  rw [TextBytes.decode_encode, TextBytes.decode_encode] at hback
  exact Option.some.inj hback

theorem plainName_not_hashed {id rest : Text} (h : plainName id = true) :
    id ≠ "h-".toList ++ rest := by
  intro heq
  subst heq
  simp [plainName] at h

theorem Lawful.folderName_inj (h : Lawful pkg D) {id id' : Text}
    (hid : TextBytes.encode id ∈ D) (hid' : TextBytes.encode id' ∈ D)
    (heq : folderName pkg id = folderName pkg id') : id = id' := by
  unfold folderName at heq
  split at heq
  · rename_i hplain
    split at heq
    · exact heq
    · exact absurd heq (plainName_not_hashed hplain)
  · split at heq
    · rename_i hplain
      exact absurd heq.symm (plainName_not_hashed hplain)
    · exact encode_injective (h.injective hid hid' (List.append_cancel_left heq))

theorem colon_not_mem_folderName (id : Text) : ':' ∉ folderName pkg id := by
  intro hcolon
  unfold folderName at hcolon
  split at hcolon
  · rename_i hplain
    simp only [plainName, Bool.and_eq_true, List.all_eq_true] at hplain
    exact absurd (hplain.1.2 _ hcolon) (by decide)
  · rcases List.mem_append.mp hcolon with hcolon | hcolon
    · exact absurd hcolon (by decide)
    · exact absurd (mem_hex (List.mem_of_mem_take hcolon)).1 (by decide)

theorem lookup_append (k : Text) (xs ys : List (Text × Json)) :
    Json.lookup k (xs ++ ys) = (Json.lookup k xs).or (Json.lookup k ys) := by
  induction xs with
  | nil => rfl
  | cons e xs ih =>
    rw [List.cons_append, Json.lookup, Json.lookup, ih]
    split <;> rfl

theorem lookup_eq_none {k : Text} {xs : List (Text × Json)} :
    Json.lookup k xs = none ↔ k ∉ xs.map (·.1) := by
  induction xs with
  | nil => simp [Json.lookup]
  | cons e xs ih =>
    obtain ⟨l, v⟩ := e
    rw [Json.lookup, List.map_cons, List.mem_cons, not_or]
    by_cases hk : l = k
    · simp [hk]
    · rw [if_neg hk, ih]
      exact ⟨fun h => ⟨Ne.symm hk, h⟩, fun h => h.2⟩

theorem get_collect {xs : List (Text × Json)} (h : (xs.map (·.1)).Nodup) (k : Text) :
    (collect xs).get k = Json.lookup k xs := by
  rw [collect, KeyMap.get_foldl_insert h, KeyMap.get_empty, Option.or_none, Json.find_eq_lookup]

namespace StoredThread

variable (t : StoredThread)

theorem keys_eq : t.fields.map (·.1) = formatFields ++ t.rest.entries.map (·.1) := by
  rw [fields, List.map_append]
  rfl

theorem keys_nodup : (t.fields.map (·.1)).Nodup := by
  rw [keys_eq, List.nodup_append]
  refine ⟨by decide, t.rest.keys_nodup, ?_⟩
  intro a ha b hb hab
  subst hab
  have hnone := t.restFields a ha
  rw [KeyMap.get, Json.find_eq_lookup, lookup_eq_none] at hnone
  exact hnone hb

theorem lookup_fields_rest {k : Text} (h : k ∉ formatFields) :
    Json.lookup k t.fields = t.rest.get k := by
  rw [fields, lookup_append, lookup_eq_none.mpr h, Option.none_or, KeyMap.get, Json.find_eq_lookup]

theorem lookup_version : Json.lookup "version".toList t.fields = some (.int t.version) := rfl
theorem lookup_id : Json.lookup "id".toList t.fields = some (.string t.id) := rfl
theorem lookup_title : Json.lookup "title".toList t.fields = some t.title := rfl
theorem lookup_systemPrompt : Json.lookup "systemPrompt".toList t.fields = some t.systemPrompt := rfl
theorem lookup_createdAt : Json.lookup "createdAt".toList t.fields = some t.createdAt := rfl
theorem lookup_updatedAt : Json.lookup "updatedAt".toList t.fields = some t.updatedAt := rfl
theorem lookup_messages : Json.lookup "messages".toList t.fields = some (.array t.messages) := rfl

theorem rest_eq : restOf t.fields = t.rest := by
  refine KeyMap.ext_get fun k => ?_
  rw [restOf, KeyMap.get_filterMap, get_collect t.keys_nodup]
  by_cases hk : k ∈ formatFields
  · rw [t.restFields k hk]
    cases Json.lookup k t.fields <;> simp [hk]
  · rw [lookup_fields_rest t hk]
    cases t.rest.get k <;> simp [hk]

/-- What is written is read back, the version being one the format can hold. -/
theorem fromFields_fields (h : t.version < 2 ^ 64) : fromFields t.fields = some t := by
  have hcounts : formatFields.all
      (fun key => decide (t.fields.countP (fun e => e.1 = key) ≤ 1)) = true := by
    refine List.all_eq_true.mpr fun key _ => decide_eq_true ?_
    have hcount := List.nodup_iff_count_le_one.mp t.keys_nodup key
    rw [List.count, List.countP_map] at hcount
    refine le_trans (le_of_eq ?_) hcount
    exact List.countP_congr fun e _ => by simp
  have hversion : (Json.int t.version).asU64 = some t.version := by
    simp only [Json.int, Json.asU64]
    rw [if_pos (by omega)]
    rfl
  rw [fromFields, if_pos hcounts]
  simp only [versionField, messagesField, lookup_version, lookup_id, lookup_messages, fieldOr,
    lookup_title, lookup_systemPrompt, lookup_createdAt, lookup_updatedAt, hversion, Json.asStr,
    Json.asArray, Option.bind_eq_bind, Option.bind_some, Option.getD_some, rest_eq]
  rfl

theorem toValue_eq : t.toValue = .object (collect t.fields).entries := rfl

end StoredThread

def threadMessages (fields : List (Text × Json)) : List Json :=
  match Json.lookup "messages".toList fields with
  | some (.array messages) => messages
  | _ => []

theorem fromFields_ok {fields : List (Text × Json)} {t : StoredThread}
    (h : StoredThread.fromFields fields = some t) :
    Json.lookup "id".toList fields = some (.string t.id) ∧
      t.title = fieldOr fields "title" ∧ t.systemPrompt = fieldOr fields "systemPrompt" ∧
      t.createdAt = fieldOr fields "createdAt" ∧ t.updatedAt = fieldOr fields "updatedAt" ∧
      t.messages = threadMessages fields ∧ t.rest = restOf fields := by
  unfold StoredThread.fromFields at h
  split at h
  · simp only [Option.bind_eq_bind, Option.bind_eq_some_iff] at h
    obtain ⟨version, -, id, hid, messages, hmessages, hlast⟩ := h
    cases hlast
    refine ⟨?_, rfl, rfl, rfl, rfl, ?_, rfl⟩
    · obtain ⟨value, hvalue, hstr⟩ := hid
      rw [hvalue]
      cases value with
      | string text =>
        cases hstr
        rfl
      | null | bool | number | array | object => cases hstr
    · unfold messagesField at hmessages
      unfold threadMessages
      cases hlookup : Json.lookup "messages".toList fields with
      | none =>
        simp only [hlookup, Option.some.injEq] at hmessages
        exact hmessages.symm
      | some value =>
        simp only [hlookup] at hmessages
        rw [Json.asArray_eq_some hmessages]
  · cases h

def offloadedImage (pkg : Packages) (image : Json) : Json :=
  match image, imageData pkg image maxImageBytes with
  | .object object, .ok (some (mediaType, bytes)) =>
    offloaded (attachmentFile pkg mediaType bytes) mediaType object
  | _, _ => image

/-- The thread as `thread.json` holds it. -/
def written (pkg : Packages) (t : StoredThread) : StoredThread :=
  { t with version := formatVersion, messages := t.messages.map (mapMessage (offloadedImage pkg)) }

theorem Stored.eq_offloaded {attachments : KeyMap Text Bytes} {image y : Json}
    (h : Stored pkg attachments image y) : y = offloadedImage pkg image := by
  cases h with
  | inline hnone =>
    unfold offloadedImage
    rw [hnone]
    split
    · cases ‹Except.ok none = _›
    · rfl
  | moved hobject hdata _ =>
    subst hobject
    simp only [offloadedImage, hdata]

theorem StoredMessage.eq_offloaded {attachments : KeyMap Text Bytes} {message stored : Json}
    (h : StoredMessage pkg attachments message stored) :
    stored = mapMessage (offloadedImage pkg) message := by
  cases h with
  | same hsame => rw [mapMessage_withoutImages hsame]
  | @images fields images images' hobject himages hstored =>
    subst hobject
    have hmap : images' = images.map (offloadedImage pkg) := by
      clear himages
      induction hstored with
      | nil => rfl
      | cons hone hrest ih => rw [List.map_cons, hone.eq_offloaded, ih]
    rw [mapMessage_images himages, hmap]

theorem StoredMessage.all_offloaded {attachments : KeyMap Text Bytes} {messages stored : List Json}
    (h : List.Forall₂ (StoredMessage pkg attachments) messages stored) :
    stored = messages.map (mapMessage (offloadedImage pkg)) := by
  induction h with
  | nil => rfl
  | cons hone hrest ih => rw [List.map_cons, hone.eq_offloaded, ih]

structure Keeps (pkg : Packages) (folder : Folder) (t : StoredThread) : Prop where
  thread : folder.thread = some (pkg.pretty (.object (written pkg t).fields))
  short : (pkg.pretty (.object (written pkg t).fields)).length ≤ maxThreadBytes
  messages : List.Forall₂ (StoredMessage pkg folder.attachments) t.messages
    (written pkg t).messages

/-- What an operation hashes is among the byte strings told apart. -/
def KnownThread (pkg : Packages) (D : Set Bytes) (thread : Json) : Prop :=
  ∀ t, StoredThread.fromValue thread = some t → TextBytes.encode t.id ∈ D ∧
    ∀ message ∈ t.messages, ∀ image ∈ imagesOf message, HashesIn pkg D image

/-- The attachments of a conversation before a save of it. -/
def startOf (root : Root) (name : Text) : Writing :=
  { attachments := ((root.get name).getD {}).attachments }

structure Sound (pkg : Packages) (D : Set Bytes) (root : Root) : Prop where
  named : ∀ name folder, root.get name = some folder → Named pkg D folder.attachments
  names : ∀ name folder, root.get name = some folder →
    ∃ id, TextBytes.encode id ∈ D ∧ name = folderName pkg id

theorem Sound.start {root : Root} (h : Sound pkg D root) (name : Text) :
    Named pkg D (startOf root name).attachments := by
  unfold startOf
  cases hfolder : root.get name with
  | none =>
    intro other bytes hget
    cases hget
  | some folder => exact h.named name folder hfolder

theorem save_ok {root root' : Root} {thread : Json}
    (h : save pkg disk root thread = (.ok (), root')) :
    ∃ t messages w, StoredThread.fromValue thread = some t ∧ t.id ≠ [] ∧
      (storeImages pkg disk maxImageBytes t.messages).exec (startOf root (folderName pkg t.id)) =
        (.ok messages, w) ∧
      (pkg.pretty (.object ({ t with version := formatVersion, messages := messages } :
        StoredThread).fields)).length ≤ maxThreadBytes ∧
      root' = root.insert (folderName pkg t.id)
        { thread := some (pkg.pretty (.object ({ t with
            version := formatVersion, messages := messages } : StoredThread).fields)),
          attachments := removeUnreferenced disk w } := by
  unfold save saveWithLimits at h
  cases hfrom : StoredThread.fromValue thread with
  | none => simp [hfrom] at h
  | some t =>
    simp only [hfrom] at h
    split at h
    · cases h
    rename_i hid
    split at h
    · cases h
    rename_i messages w hexec
    split at h
    · cases h
    rename_i bytes hserialize
    split at h
    · cases h
    simp only [serializeThread] at hserialize
    split at hserialize
    · cases hserialize
    rename_i hshort
    cases hserialize
    cases h
    exact ⟨t, messages, w, rfl, hid, hexec, Nat.le_of_not_lt hshort, rfl⟩

theorem save_error {root root' : Root} {thread : Json} {error : Text}
    (h : save pkg disk root thread = (.error error, root')) :
    root' = root ∨ ∃ t result w touched, StoredThread.fromValue thread = some t ∧
      (storeImages pkg disk maxImageBytes t.messages).exec (startOf root (folderName pkg t.id)) =
        (result, w) ∧
      root' = rollback disk root (folderName pkg t.id) { w with touched := touched } := by
  unfold save saveWithLimits at h
  cases hfrom : StoredThread.fromValue thread with
  | none =>
    simp only [hfrom] at h
    cases h
    exact .inl rfl
  | some t =>
    simp only [hfrom] at h
    split at h
    · cases h
      exact .inl rfl
    split at h
    · rename_i hexec
      cases h
      exact .inr ⟨t, _, _, _, rfl, hexec, rfl⟩
    rename_i hexec
    split at h
    · cases h
      exact .inr ⟨t, _, _, _, rfl, hexec, rfl⟩
    split at h
    · cases h
      exact .inr ⟨t, _, _, true, rfl, hexec, rfl⟩
    · cases h

theorem get_rollback (root : Root) (name o : Text) (w : Writing) :
    (rollback disk root name w).get o =
      if o = name ∧ (w.touched || (root.get name).isSome) = true then
        some { (root.get name).getD {} with attachments := removeCreated disk w }
      else root.get o := by
  unfold rollback
  split
  · rename_i hmade
    rw [KeyMap.get_insert]
    by_cases ho : o = name <;> simp [ho, hmade]
  · rename_i hmade
    rw [if_neg fun hboth => hmade hboth.2]

theorem get_removeCreated (w : Writing) (name : Text) :
    (removeCreated disk w).get name =
      if w.created.contains name && !disk.stuck name then none else w.attachments.get name := by
  rw [removeCreated, KeyMap.get_filterMap]
  cases w.attachments.get name <;> simp

theorem held_removeCreated (disk : Disk) {w w' : Writing} (h : Grows pkg D w w') (hnew : w.created = [])
    {name : Text} {bytes : Bytes} (hname : w.attachments.get name = some bytes) :
    (removeCreated disk w').get name = some bytes := by
  rw [get_removeCreated, if_neg, h.held name bytes hname]
  simp only [Bool.and_eq_true, List.contains_iff_mem, not_and]
  intro hcreated
  rcases h.created name hcreated with hold | hnone
  · rw [hnew] at hold
    cases hold
  · rw [hname] at hnone
    cases hnone

inductive Action where
  | save (thread : Json) (disk : Disk)
  | importThreads (threads : List Json) (disk : Disk)
  | delete (id : Text)
  | clear

def next (pkg : Packages) (root : Root) : Action → Root
  | .save thread disk => (save pkg disk root thread).2
  | .importThreads threads disk => (importThreads pkg disk root 0 threads).2
  | .delete id => (delete pkg root id).2
  | .clear => clear root

def step (pkg : Packages) (root : Root) (a : Action) : Option Root := some (next pkg root a)

def Known (pkg : Packages) (D : Set Bytes) (_ : Root) : Action → Prop
  | .save thread _ => KnownThread pkg D thread
  | .importThreads threads _ => ∀ thread ∈ threads, KnownThread pkg D thread
  | .delete id => TextBytes.encode id ∈ D
  | .clear => True

theorem save_other {root root' : Root} {thread : Json} {result : Except Text Unit}
    (h : save pkg disk root thread = (result, root')) {o : Text}
    (ho : ∀ t, StoredThread.fromValue thread = some t → o ≠ folderName pkg t.id) :
    root'.get o = root.get o := by
  cases result with
  | error error =>
    rcases save_error h with rfl | ⟨t, _, _, _, hfrom, -, rfl⟩
    · rfl
    · rw [get_rollback, if_neg fun hboth => ho t hfrom hboth.1]
  | ok _ =>
    obtain ⟨t, _, _, hfrom, -, -, -, rfl⟩ := save_ok h
    rw [KeyMap.get_insert, if_neg (ho t hfrom)]

theorem delete_cases (pkg : Packages) (root : Root) (id : Text) :
    (delete pkg root id).2 = root ∨
      ((delete pkg root id).1 = .ok () ∧
        (delete pkg root id).2 = root.erase (folderName pkg id)) := by
  unfold delete
  simp only
  split
  · exact .inl rfl
  split
  · exact .inl rfl
  · split
    · exact .inr ⟨rfl, rfl⟩
    · exact .inl rfl
  · exact .inl rfl

theorem fromValue_id {thread : Json} {t : StoredThread}
    (h : StoredThread.fromValue thread = some t) :
    (thread.get "id").bind Json.asStr = some t.id := by
  cases thread with
  | object fields =>
    have hid := (fromFields_ok h).1
    rw [Json.get, hid]
    rfl
  | null | bool | number | array | string => cases h

theorem importThreads_induction {P : Root → Prop} (threads : List Json)
    (hsave : ∀ root, P root → ∀ thread ∈ threads,
      (∀ t, StoredThread.fromValue thread = some t →
        ((root.get (folderName pkg t.id)).bind (·.thread)).isSome = false) →
      P (save pkg disk root thread).2) {root : Root} (imported : Nat) (h : P root) :
    P (importThreads pkg disk root imported threads).2 := by
  induction threads generalizing root imported with
  | nil => exact h
  | cons thread threads ih =>
    obtain ⟨hfirst, hrest⟩ : (∀ root, P root → _ → P (save pkg disk root thread).2) ∧ _ :=
      ⟨fun root hroot => hsave root hroot thread List.mem_cons_self,
        fun root hroot other hother => hsave root hroot other (List.mem_cons_of_mem _ hother)⟩
    unfold importThreads
    split
    · exact h
    rename_i id hid
    split
    · exact ih hrest imported h
    rename_i habsent
    have hsaved := hfirst root h fun t ht => by
      have hsame : t.id = id := Option.some.inj ((fromValue_id ht).symm.trans hid)
      rw [hsame]
      simpa using habsent
    split
    · rename_i root' hok
      rw [hok] at hsaved
      exact ih hrest (imported + 1) hsaved
    · rename_i error root' herror
      rw [herror] at hsaved
      exact hsaved

theorem Named.removeUnreferenced {w : Writing} (h : Named pkg D w.attachments) :
    Named pkg D (Conversations.removeUnreferenced disk w) := by
  refine h.mono fun name bytes hname => ?_
  rw [get_removeUnreferenced] at hname
  split at hname
  · exact hname
  · cases hname

theorem Named.removeCreated {w : Writing} (h : Named pkg D w.attachments) :
    Named pkg D (Conversations.removeCreated disk w) := by
  refine h.mono fun name bytes hname => ?_
  rw [get_removeCreated] at hname
  split at hname
  · cases hname
  · exact hname

namespace Sound

variable {root : Root}

theorem empty : Sound pkg D KeyMap.empty := by
  constructor
  · intro name folder hget
    cases hget
  · intro name folder hget
    cases hget

theorem insert (h : Sound pkg D root) {id : Text} {folder : Folder}
    (hid : TextBytes.encode id ∈ D) (hnamed : Named pkg D folder.attachments) :
    Sound pkg D (root.insert (folderName pkg id) folder) := by
  constructor
  · intro name other hget
    rw [KeyMap.get_insert] at hget
    split at hget
    · cases hget
      exact hnamed
    · exact h.named name other hget
  · intro name other hget
    rw [KeyMap.get_insert] at hget
    split at hget
    · rename_i hname
      exact ⟨id, hid, hname⟩
    · exact h.names name other hget

theorem save (h : Sound pkg D root) (disk : Disk) {thread : Json}
    (hknown : KnownThread pkg D thread) : Sound pkg D (save pkg disk root thread).2 := by
  cases hsave : Conversations.save pkg disk root thread with
  | mk result root' =>
    have hmoves {t : StoredThread} (hfrom : StoredThread.fromValue thread = some t)
        {result : Except Text (List Json)} {w : Writing}
        (hexec : (storeImages pkg disk maxImageBytes t.messages).exec
          (startOf root (folderName pkg t.id)) = (result, w)) : Named pkg D w.attachments := by
      have hgrows := grows_storeImages disk (hknown t hfrom).2
        (startOf root (folderName pkg t.id))
      rw [hexec] at hgrows
      exact hgrows.named (h.start _)
    cases result with
    | error error =>
      rcases save_error hsave with rfl | ⟨t, _, w, touched, hfrom, hexec, rfl⟩
      · exact h
      · unfold rollback
        split
        · exact h.insert (hknown t hfrom).1 (hmoves hfrom hexec).removeCreated
        · exact h
    | ok _ =>
      obtain ⟨t, messages, w, hfrom, -, hexec, -, rfl⟩ := save_ok hsave
      exact h.insert (hknown t hfrom).1 (hmoves hfrom hexec).removeUnreferenced

theorem next (h : Sound pkg D root) {a : Action} (ha : Known pkg D root a) :
    Sound pkg D (next pkg root a) := by
  cases a with
  | save thread disk => exact h.save disk ha
  | importThreads threads disk =>
    exact importThreads_induction threads
      (fun root hroot thread hthread _ => hroot.save disk (ha thread hthread)) 0 h
  | delete id =>
    simp only [Conversations.next]
    rcases delete_cases pkg root id with hsame | ⟨-, herased⟩
    · rw [hsame]
      exact h
    · rw [herased]
      constructor
      · intro name folder hget
        rw [KeyMap.get_erase] at hget
        split at hget
        · cases hget
        · exact h.named name folder hget
      · intro name folder hget
        rw [KeyMap.get_erase] at hget
        split at hget
        · cases hget
        · exact h.names name folder hget
  | clear => exact empty

theorem reached (h : Reaches (step pkg) (Known pkg D) .empty root) : Sound pkg D root := by
  refine h.invariant empty fun root root' a hroot ha hstep => ?_
  cases hstep
  exact hroot.next ha

end Sound

theorem Keeps.mono {folder folder' : Folder} {t : StoredThread} (h : Keeps pkg folder t)
    (hthread : folder'.thread = folder.thread)
    (hheld : ∀ name bytes, folder.attachments.get name = some bytes →
      folder'.attachments.get name = some bytes) : Keeps pkg folder' t where
  thread := hthread.trans h.thread
  short := h.short
  messages := h.messages.imp fun _ _ hone => hone.mono hheld

def Holds (pkg : Packages) (root : Root) (t : StoredThread) : Prop :=
  ∃ folder, root.get (folderName pkg t.id) = some folder ∧ Keeps pkg folder t

/-- The step does not replace or remove the conversation. -/
def Spares (pkg : Packages) (id : Text) (root : Root) : Action → Prop
  | .save thread disk => (save pkg disk root thread).1 = .ok () →
      ∀ t, StoredThread.fromValue thread = some t → t.id ≠ id
  | .importThreads _ _ => True
  | .delete other => (delete pkg root other).1 = .ok () → other ≠ id
  | .clear => False

theorem Lawful.holds_of_save (h : Lawful pkg D) {root root' : Root} (hsound : Sound pkg D root)
    {thread : Json} {t : StoredThread} (hknown : KnownThread pkg D thread)
    (hfrom : StoredThread.fromValue thread = some t)
    (hsave : save pkg disk root thread = (.ok (), root')) : Holds pkg root' t := by
  obtain ⟨u, messages, w, hu, -, hexec, hshort, rfl⟩ := save_ok hsave
  obtain rfl : u = t := Option.some.inj (hu.symm.trans hfrom)
  have hgrows := grows_storeImages disk (hknown u hu).2 (startOf root (folderName pkg u.id))
  rw [hexec] at hgrows
  have hstored := h.stored_storeImages (hknown u hu).2 hexec (hgrows.named (hsound.start _))
  have hmessages : messages = (written pkg u).messages := StoredMessage.all_offloaded hstored
  subst hmessages
  exact ⟨_, by rw [KeyMap.get_insert, if_pos rfl], rfl, hshort, hstored⟩

namespace Holds

variable {root : Root} {t : StoredThread}

theorem save (hlawful : Lawful pkg D) (h : Holds pkg root t) (hid : TextBytes.encode t.id ∈ D)
    {thread : Json} (hknown : KnownThread pkg D thread) (disk : Disk)
    (hspares : (save pkg disk root thread).1 = .ok () →
      ∀ u, StoredThread.fromValue thread = some u → u.id ≠ t.id) :
    Holds pkg (save pkg disk root thread).2 t := by
  obtain ⟨folder, hfolder, hkeeps⟩ := h
  cases hsave : Conversations.save pkg disk root thread with
  | mk result root' =>
    rw [hsave] at hspares
    cases result with
    | ok _ =>
      refine ⟨folder, ?_, hkeeps⟩
      rw [save_other hsave, hfolder]
      intro u hu heq
      exact hspares rfl u hu (hlawful.folderName_inj (hknown u hu).1 hid heq.symm)
    | error error =>
      rcases save_error hsave with rfl | ⟨u, _, w, touched, hu, hexec, rfl⟩
      · exact ⟨folder, hfolder, hkeeps⟩
      · by_cases hname : folderName pkg t.id = folderName pkg u.id
        · have hgrows := grows_storeImages disk (hknown u hu).2
            (startOf root (folderName pkg u.id))
          rw [hexec] at hgrows
          refine ⟨{ folder with attachments := removeCreated disk { w with touched := touched } },
            ?_, hkeeps.mono rfl fun other bytes hother => ?_⟩
          · simp only [get_rollback, hname]
            rw [← hname, hfolder]
            simp
          · have hstart : (startOf root (folderName pkg u.id)).attachments = folder.attachments := by
              rw [startOf, ← hname, hfolder]
              rfl
            have hheld := held_removeCreated disk hgrows rfl (hstart ▸ hother)
            rw [get_removeCreated] at hheld ⊢
            exact hheld
        · exact ⟨folder, by rw [get_rollback, if_neg (fun hboth => hname hboth.1), hfolder], hkeeps⟩

theorem next (hlawful : Lawful pkg D) (h : Holds pkg root t) (hid : TextBytes.encode t.id ∈ D)
    {a : Action} (hknown : Known pkg D root a) (hspares : Spares pkg t.id root a) :
    Holds pkg (next pkg root a) t := by
  cases a with
  | save thread disk => exact h.save hlawful hid hknown disk hspares
  | importThreads threads disk =>
    refine importThreads_induction (P := fun root => Holds pkg root t) threads
      (fun root hroot thread hthread habsent => ?_) 0 h
    refine hroot.save hlawful hid (hknown thread hthread) disk fun _ u hu heq => ?_
    -- the thread is stored, so the import passed over it
    obtain ⟨folder, hfolder, hkeeps⟩ := hroot
    have hnone := habsent u hu
    rw [heq, hfolder, Option.bind_some, hkeeps.thread] at hnone
    cases hnone
  | delete id =>
    simp only [Conversations.next]
    rcases delete_cases pkg root id with hsame | ⟨hok, herased⟩
    · rw [hsame]
      exact h
    · obtain ⟨folder, hfolder, hkeeps⟩ := h
      refine ⟨folder, ?_, hkeeps⟩
      rw [herased, KeyMap.get_erase, if_neg, hfolder]
      intro heq
      exact hspares hok (hlawful.folderName_inj hknown hid heq.symm)
  | clear => exact hspares.elim

end Holds

end AioLM.Conversations
