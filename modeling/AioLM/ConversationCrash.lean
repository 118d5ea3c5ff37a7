import AioLM.ConversationLoad

/-!
What a failed write leaves of the stored conversations: every attachment a thread
names, no trace of the save that failed, and the other conversations untouched.
-/

set_option autoImplicit false

namespace AioLM.Conversations

open Fallible Runs

variable {pkg : Packages} {D : Set Bytes} {disk : Disk}

def folderAt (root : Root) (name : Text) : Folder := (root.get name).getD {}

def storedThread (pkg : Packages) (folder : Folder) : Option StoredThread :=
  folder.thread.bind fun bytes =>
    match pkg.parse bytes with
    | .ok value => StoredThread.fromValue value
    | .error _ => none

/-- An image of the thread gives a file of this name. -/
def References (stored : StoredThread) (attachment : Text) : Prop :=
  ∃ message ∈ stored.messages, ∃ image ∈ imagesOf message, ∃ file,
    (image.get "file").bind Json.asStr = some file ∧ attachmentName file = some attachment

/-- Every attachment a stored thread names is there, with the bytes of its name. -/
def Consistent (pkg : Packages) (root : Root) : Prop :=
  ∀ name stored attachment, storedThread pkg (folderAt root name) = some stored →
    References stored attachment → ∃ content extension,
      (folderAt root name).attachments.get attachment = some content ∧
      attachment = hex (pkg.sha256 content) ++ '.' :: extension

def About (id : Text) : Action → Prop
  | .save thread _ => ∃ t, StoredThread.fromValue thread = some t ∧ t.id = id
  | .importThreads threads _ =>
    ∃ thread ∈ threads, ∃ t, StoredThread.fromValue thread = some t ∧ t.id = id
  | .delete other => other = id
  | .clear => True

/-- What one operation does to the files, those it removes being gone. -/
structure CrashSafe (pkg : Packages) (D : Set Bytes) (root : Root) (a : Action) : Prop where
  failed : ∀ thread disk error, a = .save thread disk → (∀ name, disk.stuck name = false) →
    (save pkg disk root thread).1 = .error error → ∀ name,
      folderAt (next pkg root a) name = folderAt root name
  saved : ∀ thread disk t, a = .save thread disk → (∀ name, disk.stuck name = false) →
    (save pkg disk root thread).1 = .ok () → StoredThread.fromValue thread = some t →
      ∃ stored, storedThread pkg (folderAt (next pkg root a) (folderName pkg t.id)) = some stored ∧
        ∀ attachment, ((folderAt (next pkg root a) (folderName pkg t.id)).attachments.get
          attachment).isSome ↔ References stored attachment
  imported : ∀ threads disk, a = .importThreads threads disk → ∀ name bytes,
    (folderAt root name).thread = some bytes →
      (folderAt (next pkg root a) name).thread = some bytes
  others : ∀ id, TextBytes.encode id ∈ D → ¬ About id a →
    (next pkg root a).get (folderName pkg id) = root.get (folderName pkg id)

def Moved (pkg : Packages) (t : StoredThread) (attachment : Text) : Prop :=
  ∃ message ∈ t.messages, ∃ image ∈ imagesOf message, ∃ mediaType bytes,
    imageData pkg image maxImageBytes = .ok (some (mediaType, bytes)) ∧
      attachment = attachmentFile pkg mediaType bytes

/-- An image left in the thread names no attachment but those of the moved ones. -/
def Backed (pkg : Packages) (t : StoredThread) : Prop :=
  ∀ message ∈ t.messages, ∀ image ∈ imagesOf message,
    imageData pkg image maxImageBytes = .ok none → ∀ file attachment,
      (image.get "file").bind Json.asStr = some file → attachmentName file = some attachment →
        Moved pkg t attachment

/-- The value is one the store can be handed: its objects are maps, and the package
reads back the text it writes for the thread. -/
def Received (pkg : Packages) (thread : Json) : Prop :=
  thread.Ordered ∧ ∀ t, StoredThread.fromValue thread = some t →
    pkg.parse (pkg.pretty (.object (written pkg t).fields)) = .ok (.object (written pkg t).fields)

def ReceivedAction (pkg : Packages) : Action → Prop
  | .save thread _ => Received pkg thread
  | .importThreads threads _ => ∀ thread ∈ threads, Received pkg thread
  | _ => True

def BackedThread (pkg : Packages) (thread : Json) : Prop :=
  ∀ t, StoredThread.fromValue thread = some t → Backed pkg t

def BackedAction (pkg : Packages) : Action → Prop
  | .save thread _ => BackedThread pkg thread
  | .importThreads threads _ => ∀ thread ∈ threads, BackedThread pkg thread
  | _ => True

theorem imagesOf_mapMessage {message : Json} (h : message.Ordered) (f : Json → Json) :
    imagesOf (mapMessage f message) = (imagesOf message).map f := by
  rcases images_cases message with hsame | ⟨fields, images, rfl, himages⟩
  · rw [mapMessage_withoutImages hsame, imagesOf_withoutImages hsame]
    rfl
  · have hwritten : Json.lookup "images".toList
        (Json.insertField "images" (.array (images.map f)) fields) = some (.array (images.map f)) := by
      rw [Json.lookup_insertField h.sorted, if_pos rfl]
    rw [mapMessage_images himages, imagesOf_images hwritten, imagesOf_images himages]

theorem ordered_image {message image : Json} (h : message.Ordered) (himage : image ∈ imagesOf message) :
    image.Ordered := by
  rcases images_cases message with hsame | ⟨fields, images, rfl, himages⟩
  · rw [imagesOf_withoutImages hsame] at himage
    cases himage
  · rw [imagesOf_images himages] at himage
    exact (h.lookup himages).item himage

theorem lookup_offloaded_file {object : List (Text × Json)} (hsorted : Json.Sorted object)
    (name mediaType : Text) :
    ((offloaded name mediaType object).get "file").bind Json.asStr =
      some (attachmentsFolder ++ '/' :: name) := by
  rw [offloaded, Json.get, Json.lookup_replaceOne hsorted, if_neg (by decide), if_pos rfl]
  rfl

theorem offloadedImage_of_none {image : Json} (h : imageData pkg image maxImageBytes = .ok none) :
    offloadedImage pkg image = image := by
  unfold offloadedImage
  rw [h]
  split
  · cases ‹Except.ok none = _›
  · rfl

theorem Lawful.references_iff (h : Lawful pkg D) {t : StoredThread}
    (hordered : ∀ message ∈ t.messages, message.Ordered) (hbacked : Backed pkg t)
    (hdecoded : ∀ message ∈ t.messages, ∀ image ∈ imagesOf message,
      (imageData pkg image maxImageBytes).isOk = true) (attachment : Text) :
    References (written pkg t) attachment ↔ Moved pkg t attachment := by
  have hfile {object : List (Text × Json)} (hsorted : Json.Sorted object) {mediaType : Text}
      {bytes : Bytes} (hdata : imageData pkg (.object object) maxImageBytes =
        .ok (some (mediaType, bytes))) :
      ((offloadedImage pkg (.object object)).get "file").bind Json.asStr =
        some (attachmentsFolder ++ '/' :: attachmentFile pkg mediaType bytes) := by
    simp only [offloadedImage, hdata]
    exact lookup_offloaded_file hsorted _ _
  constructor
  · rintro ⟨stored, hstored, image', himage', file, hnamed, hname⟩
    obtain ⟨message, hmessage, rfl⟩ := List.mem_map.mp hstored
    rw [imagesOf_mapMessage (hordered message hmessage)] at himage'
    obtain ⟨image, himage, rfl⟩ := List.mem_map.mp himage'
    obtain ⟨data, hdata⟩ := exists_of_isOk (hdecoded message hmessage image himage)
    cases data with
    | none =>
      rw [offloadedImage_of_none hdata] at hnamed
      exact hbacked message hmessage image himage hdata file attachment hnamed hname
    | some data =>
      obtain ⟨mediaType, bytes⟩ := data
      obtain ⟨object, url, rfl, -⟩ := imageData_some hdata
      have hsorted := (ordered_image (hordered message hmessage) himage).sorted
      rw [hfile hsorted hdata] at hnamed
      cases hnamed
      rw [h.attachmentName] at hname
      exact ⟨message, hmessage, _, himage, mediaType, bytes, hdata, (Option.some.inj hname).symm⟩
  · rintro ⟨message, hmessage, image, himage, mediaType, bytes, hdata, hname⟩
    obtain ⟨object, url, rfl, -⟩ := imageData_some hdata
    have hsorted := (ordered_image (hordered message hmessage) himage).sorted
    refine ⟨_, List.mem_map_of_mem hmessage, offloadedImage pkg (.object object), ?_, _,
      hfile hsorted hdata, ?_⟩
    · rw [imagesOf_mapMessage (hordered message hmessage)]
      exact List.mem_map_of_mem himage
    · rw [hname]
      exact h.attachmentName mediaType bytes

/-- The names kept are old ones or among `S`. -/
def KeptWithin (S : Text → Prop) (w w' : Writing) : Prop :=
  ∀ name ∈ w'.kept, name ∈ w.kept ∨ S name

theorem KeptWithin.refl (S : Text → Prop) (w : Writing) : KeptWithin S w w := fun _ h => .inl h

theorem KeptWithin.trans (S : Text → Prop) (u v w : Writing) (h : KeptWithin S u v)
    (h' : KeptWithin S v w) : KeptWithin S u w := fun name hname =>
  (h' name hname).elim (h name) .inr

theorem kept_writeMissing (S : Text → Prop) (disk : Disk) (name : Text) (bytes : Bytes) :
    Effect.Moves (KeptWithin S) (writeMissing disk name bytes) := by
  intro w
  rcases exec_writeMissing disk name bytes w with ⟨old, -, hexec⟩ | ⟨-, ⟨error, hexec⟩ | hexec⟩ <;>
    rw [hexec] <;> exact KeptWithin.refl S w

theorem kept_storeImage {S : Text → Prop} {image : Json}
    (h : ∀ mediaType bytes, imageData pkg image maxImageBytes = .ok (some (mediaType, bytes)) →
      S (attachmentFile pkg mediaType bytes)) :
    Effect.Moves (KeptWithin S) (storeImage pkg disk maxImageBytes image) := by
  intro w
  cases hdata : imageData pkg image maxImageBytes with
  | error error =>
    simp only [storeImage, Effect.exec_bind, Effect.exec_ofExcept, hdata]
    exact KeptWithin.refl S w
  | ok data =>
    cases data with
    | none =>
      rw [exec_storeImage_none hdata]
      exact KeptWithin.refl S w
    | some data =>
      obtain ⟨mediaType, bytes⟩ := data
      obtain ⟨object, url, rfl, -⟩ := imageData_some hdata
      have hwrite := kept_writeMissing S disk (attachmentFile pkg mediaType bytes) bytes w
      rw [exec_storeImage_some hdata]
      cases hexec : (writeMissing disk (attachmentFile pkg mediaType bytes) bytes).exec w with
      | mk result w' =>
        rw [hexec] at hwrite
        cases result with
        | error error => exact hwrite
        | ok u =>
          intro name hname
          rcases List.mem_cons.mp hname with rfl | hname
          · exact .inr (h mediaType bytes hdata)
          · exact hwrite name hname

theorem kept_storeMessage {S : Text → Prop} {message : Json}
    (h : ∀ image ∈ imagesOf message, ∀ mediaType bytes,
      imageData pkg image maxImageBytes = .ok (some (mediaType, bytes)) →
        S (attachmentFile pkg mediaType bytes)) :
    Effect.Moves (KeptWithin S) (mapImages (storeImage pkg disk maxImageBytes) message) := by
  rcases images_cases message with hsame | ⟨fields, images, rfl, himages⟩
  · rw [mapImages_withoutImages hsame]
    exact KeptWithin.refl S
  · rw [imagesOf_images himages] at h
    rw [mapImages_images himages]
    refine Effect.Moves.bind ?_ (fun images' => KeptWithin.refl S) (KeptWithin.trans S)
    exact Effect.Moves.mapM (fun image himage => kept_storeImage (h image himage))
      (KeptWithin.refl S) (KeptWithin.trans S)

theorem kept_storeImages (pkg : Packages) (disk : Disk) (t : StoredThread) :
    Effect.Moves (KeptWithin (Moved pkg t)) (storeImages pkg disk maxImageBytes t.messages) := by
  refine Effect.Moves.mapM (fun message hmessage => ?_) (KeptWithin.refl _) (KeptWithin.trans _)
  exact kept_storeMessage fun image himage mediaType bytes hdata =>
    ⟨message, hmessage, image, himage, mediaType, bytes, hdata, rfl⟩

theorem removeCreated_eq {w w' : Writing} (h : Grows pkg D w w') (hnew : w.created = [])
    (hremoved : ∀ name, disk.stuck name = false) : removeCreated disk w' = w.attachments := by
  refine KeyMap.ext_get fun name => ?_
  cases hold : w.attachments.get name with
  | some bytes => exact held_removeCreated disk h hnew hold
  | none =>
    rw [get_removeCreated, hremoved]
    by_cases hcreated : name ∈ w'.created
    · simp [hcreated]
    · cases hnow : w'.attachments.get name with
      | none => simp
      | some bytes =>
        rcases h.fresh name (by rw [hnow]; rfl) with hbefore | hbefore
        · rw [hold] at hbefore
          cases hbefore
        · exact absurd hbefore hcreated

theorem Stored.isOk {attachments : KeyMap Text Bytes} {image y : Json}
    (h : Stored pkg attachments image y) : (imageData pkg image maxImageBytes).isOk = true := by
  cases h with
  | inline hdata =>
    rw [hdata]
    rfl
  | moved _ hdata _ =>
    rw [hdata]
    rfl

theorem StoredMessage.image {attachments : KeyMap Text Bytes} {message stored image : Json}
    (h : StoredMessage pkg attachments message stored) (himage : image ∈ imagesOf message) :
    ∃ y, Stored pkg attachments image y := by
  cases h with
  | same hsame =>
    rw [imagesOf_withoutImages hsame] at himage
    cases himage
  | images hobject himages hstored =>
    subst hobject
    rw [imagesOf_images himages] at himage
    obtain ⟨i, hi, rfl⟩ := List.getElem_of_mem himage
    exact ⟨_, hstored.get hi (hstored.length_eq ▸ hi)⟩

namespace Keeps

variable {folder : Folder} {t : StoredThread}

theorem image (h : Keeps pkg folder t) {message image : Json} (hmessage : message ∈ t.messages)
    (himage : image ∈ imagesOf message) : ∃ y, Stored pkg folder.attachments image y := by
  obtain ⟨i, hi, rfl⟩ := List.getElem_of_mem hmessage
  exact (h.messages.get hi (h.messages.length_eq ▸ hi)).image himage

theorem moved (h : Keeps pkg folder t) {attachment : Text} (hmoved : Moved pkg t attachment) :
    ∃ mediaType bytes, folder.attachments.get attachment = some bytes ∧
      attachment = attachmentFile pkg mediaType bytes := by
  obtain ⟨message, hmessage, image, himage, mediaType, bytes, hdata, rfl⟩ := hmoved
  obtain ⟨y, hstored⟩ := h.image hmessage himage
  cases hstored with
  | inline hnone =>
    rw [hnone] at hdata
    cases hdata
  | moved _ hother hheld =>
    rw [hother] at hdata
    cases hdata
    exact ⟨mediaType, bytes, hheld, rfl⟩

theorem decoded (h : Keeps pkg folder t) :
    ∀ message ∈ t.messages, ∀ image ∈ imagesOf message,
      (imageData pkg image maxImageBytes).isOk = true := by
  intro message hmessage image himage
  obtain ⟨y, hstored⟩ := h.image hmessage himage
  exact hstored.isOk

theorem storedThread_eq (h : Keeps pkg folder t)
    (hjson : pkg.parse (pkg.pretty (.object (written pkg t).fields)) =
      .ok (.object (written pkg t).fields)) : storedThread pkg folder = some (written pkg t) := by
  rw [storedThread, h.thread, Option.bind_some, hjson]
  exact (written pkg t).fromFields_fields (show formatVersion < 2 ^ 64 by decide)

end Keeps

/-- What makes a thread's file name the files beside it and be read back. -/
structure Sendable (pkg : Packages) (t : StoredThread) : Prop where
  ordered : ∀ message ∈ t.messages, message.Ordered
  backed : Backed pkg t
  readable : pkg.parse (pkg.pretty (.object (written pkg t).fields)) =
    .ok (.object (written pkg t).fields)

theorem sendable_of_received {thread : Json} {t : StoredThread} (h : Received pkg thread)
    (hbacked : BackedThread pkg thread) (hfrom : StoredThread.fromValue thread = some t) :
    Sendable pkg t :=
  ⟨ordered_messages h.1 hfrom, hbacked t hfrom, h.2 t hfrom⟩

theorem Lawful.references_keeps (h : Lawful pkg D) {folder : Folder} {t : StoredThread}
    (hkeeps : Keeps pkg folder t) (hsend : Sendable pkg t) (attachment : Text) :
    References (written pkg t) attachment ↔ Moved pkg t attachment :=
  h.references_iff hsend.ordered hsend.backed hkeeps.decoded attachment

/-- Every `thread.json` is what a save wrote, its images beside it. -/
def Faithful (pkg : Packages) (root : Root) : Prop :=
  ∀ name folder bytes, root.get name = some folder → folder.thread = some bytes →
    ∃ t, Keeps pkg folder t ∧ Sendable pkg t

theorem Lawful.consistent (h : Lawful pkg D) {root : Root} (hfaithful : Faithful pkg root) :
    Consistent pkg root := by
  intro name stored attachment hstored href
  unfold folderAt at hstored ⊢
  cases hfolder : root.get name with
  | none =>
    rw [hfolder] at hstored
    cases hstored
  | some folder =>
    rw [hfolder] at hstored
    simp only [Option.getD_some] at hstored ⊢
    obtain ⟨bytes, hbytes, -⟩ := Option.bind_eq_some_iff.mp hstored
    obtain ⟨t, hkeeps, hsend⟩ := hfaithful name folder bytes hfolder hbytes
    rw [hkeeps.storedThread_eq hsend.readable] at hstored
    cases hstored
    have hmoved := (h.references_keeps hkeeps hsend attachment).mp href
    obtain ⟨mediaType, content, hheld, hname⟩ := hkeeps.moved hmoved
    exact ⟨content, _, hheld, hname⟩

namespace Faithful

variable {root : Root}

theorem empty : Faithful pkg KeyMap.empty := by
  intro name folder bytes hget
  cases hget

theorem save (hlawful : Lawful pkg D) (h : Faithful pkg root) (hsound : Sound pkg D root)
    (disk : Disk) {thread : Json} (hknown : KnownThread pkg D thread)
    (hreceived : Received pkg thread) (hbacked : BackedThread pkg thread) :
    Faithful pkg (save pkg disk root thread).2 := by
  cases hsave : Conversations.save pkg disk root thread with
  | mk result root' =>
    intro name folder bytes hget hthread
    cases result with
    | ok _ =>
      obtain ⟨t, messages, w, hfrom, -⟩ := save_ok hsave
      have hsend := sendable_of_received hreceived hbacked hfrom
      obtain ⟨own, hown, hkeeps⟩ := hlawful.holds_of_save hsound hknown hfrom hsave
      by_cases hname : name = folderName pkg t.id
      · subst hname
        obtain rfl := Option.some.inj (hown.symm.trans hget)
        exact ⟨t, hkeeps, hsend⟩
      · refine h name folder bytes ?_ hthread
        rw [← save_other hsave fun u hu => ?_, hget]
        obtain rfl : u = t := Option.some.inj (hu.symm.trans hfrom)
        exact hname
    | error error =>
      rcases save_error hsave with rfl | ⟨t, result, w, touched, hfrom, hexec, rfl⟩
      · exact h name folder bytes hget hthread
      · rw [get_rollback] at hget
        split at hget
        · rename_i hboth
          obtain rfl := hboth.1
          cases hget
          cases hold : root.get (folderName pkg t.id) with
          | none =>
            rw [hold] at hthread
            cases hthread
          | some old =>
            rw [hold] at hthread
            simp only [Option.getD_some] at hthread ⊢
            obtain ⟨u, hkeeps, hsend⟩ := h _ old bytes hold hthread
            -- what was beside the thread is left there
            have hgrows := grows_storeImages disk (hknown t hfrom).2
              (startOf root (folderName pkg t.id))
            rw [hexec] at hgrows
            refine ⟨u, hkeeps.mono rfl fun other content hother => ?_, hsend⟩
            have hstart : (startOf root (folderName pkg t.id)).attachments = old.attachments := by
              rw [startOf, hold]
              rfl
            have hheld := held_removeCreated disk hgrows rfl (hstart ▸ hother)
            rw [get_removeCreated] at hheld ⊢
            exact hheld
        · exact h name folder bytes hget hthread

theorem next (hlawful : Lawful pkg D) (h : Faithful pkg root) (hsound : Sound pkg D root)
    {a : Action} (hknown : Known pkg D root a) (hreceived : ReceivedAction pkg a)
    (hbacked : BackedAction pkg a) : Faithful pkg (next pkg root a) := by
  cases a with
  | save thread disk => exact h.save hlawful hsound disk hknown hreceived hbacked
  | importThreads threads disk =>
    have hboth : Sound pkg D (Conversations.next pkg root (.importThreads threads disk)) ∧
        Faithful pkg (Conversations.next pkg root (.importThreads threads disk)) :=
      importThreads_induction (P := fun root => Sound pkg D root ∧ Faithful pkg root) threads
        (fun root hroot thread hthread _ => ⟨hroot.1.save disk (hknown thread hthread),
          hroot.2.save hlawful hroot.1 disk (hknown thread hthread) (hreceived thread hthread)
            (hbacked thread hthread)⟩) 0 ⟨hsound, h⟩
    exact hboth.2
  | delete id =>
    simp only [Conversations.next]
    rcases delete_cases pkg root id with hsame | ⟨-, herased⟩
    · rw [hsame]
      exact h
    · rw [herased]
      intro name folder bytes hget
      rw [KeyMap.get_erase] at hget
      split at hget
      · cases hget
      · exact h name folder bytes hget
  | clear => exact empty

end Faithful

theorem save_failed {root : Root} {thread : Json} {error : Text} (hknown : KnownThread pkg D thread)
    (hremoved : ∀ name, disk.stuck name = false)
    (herror : (save pkg disk root thread).1 = .error error) (name : Text) :
    folderAt (save pkg disk root thread).2 name = folderAt root name := by
  cases hsave : save pkg disk root thread with
  | mk result root' =>
    rw [hsave] at herror
    subst herror
    rcases save_error hsave with rfl | ⟨t, result, w, touched, hfrom, hexec, rfl⟩
    · rfl
    · unfold folderAt
      rw [get_rollback]
      split
      · rename_i hboth
        obtain rfl := hboth.1
        have hgrows := grows_storeImages disk (hknown t hfrom).2
          (startOf root (folderName pkg t.id))
        rw [hexec] at hgrows
        have hcreated : removeCreated disk w = (startOf root (folderName pkg t.id)).attachments :=
          removeCreated_eq hgrows rfl hremoved
        have hsame : removeCreated disk { w with touched := touched } =
            (startOf root (folderName pkg t.id)).attachments := hcreated
        rw [Option.getD_some, hsame]
        rfl
      · rfl

theorem Lawful.save_saved (h : Lawful pkg D) {root : Root} (hsound : Sound pkg D root)
    {thread : Json} {t : StoredThread} (hknown : KnownThread pkg D thread)
    (hsend : Sendable pkg t) (hremoved : ∀ name, disk.stuck name = false)
    (hok : (save pkg disk root thread).1 = .ok ())
    (hfrom : StoredThread.fromValue thread = some t) :
    ∃ stored, storedThread pkg (folderAt (save pkg disk root thread).2 (folderName pkg t.id)) =
        some stored ∧
      ∀ attachment, ((folderAt (save pkg disk root thread).2 (folderName pkg t.id)).attachments.get
        attachment).isSome ↔ References stored attachment := by
  cases hsave : save pkg disk root thread with
  | mk result root' =>
    rw [hsave] at hok
    subst hok
    obtain ⟨folder, hfolder, hkeeps⟩ := h.holds_of_save hsound hknown hfrom hsave
    have hat : folderAt root' (folderName pkg t.id) = folder := by rw [folderAt, hfolder]; rfl
    refine ⟨written pkg t, ?_, fun attachment => ?_⟩
    · rw [hat]
      exact hkeeps.storedThread_eq hsend.readable
    rw [h.references_keeps hkeeps hsend, hat]
    constructor
    · intro hheld
      obtain ⟨u, messages, w, hu, -, hexec, -, rfl⟩ := save_ok hsave
      obtain rfl : u = t := Option.some.inj (hu.symm.trans hfrom)
      rw [KeyMap.get_insert, if_pos rfl] at hfolder
      cases hfolder
      have hkept := kept_storeImages pkg disk u (startOf root (folderName pkg u.id))
      rw [hexec] at hkept
      simp only [get_removeUnreferenced, hremoved, Bool.or_false] at hheld
      split at hheld
      · rename_i hname
        rcases hkept attachment (List.contains_iff_mem.mp hname) with hold | hmoved
        · cases hold
        · exact hmoved
      · cases hheld
    · intro hmoved
      obtain ⟨_, bytes, hheld, -⟩ := hkeeps.moved hmoved
      rw [hheld]
      rfl

theorem importThreads_keeps (pkg : Packages) (disk : Disk) {root : Root} (threads : List Json)
    {name : Text} {bytes : Bytes} (h : (folderAt root name).thread = some bytes) :
    (folderAt (importThreads pkg disk root 0 threads).2 name).thread = some bytes := by
  refine importThreads_induction (P := fun root => (folderAt root name).thread = some bytes)
    threads (fun root hroot thread _ habsent => ?_) 0 h
  cases hsave : save pkg disk root thread with
  | mk result root' =>
    have hother : root'.get name = root.get name := save_other hsave fun t ht hname => by
      -- the thread is stored, so the import passed over it
      have hnone := habsent t ht
      rw [← hname] at hnone
      unfold folderAt at hroot
      cases hfolder : root.get name with
      | none =>
        rw [hfolder] at hroot
        cases hroot
      | some folder =>
        rw [hfolder] at hroot hnone
        rw [Option.bind_some, show folder.thread = some bytes from hroot] at hnone
        cases hnone
    rw [← hroot, folderAt, folderAt, hother]

theorem Lawful.others_same (h : Lawful pkg D) {root : Root} {a : Action} {id : Text}
    (hknown : Known pkg D root a) (hid : TextBytes.encode id ∈ D) (habout : ¬ About id a) :
    (next pkg root a).get (folderName pkg id) = root.get (folderName pkg id) := by
  have hsave (root : Root) {thread : Json} (disk : Disk) (hthread : KnownThread pkg D thread)
      (hother : ∀ t, StoredThread.fromValue thread = some t → t.id ≠ id) :
      (save pkg disk root thread).2.get (folderName pkg id) = root.get (folderName pkg id) := by
    cases hexec : save pkg disk root thread with
    | mk result root' =>
      refine save_other hexec fun t ht hname => ?_
      exact hother t ht (h.folderName_inj hid (hthread t ht).1 hname).symm
  cases a with
  | save thread disk =>
    exact hsave root disk hknown fun t ht hsame => habout ⟨t, ht, hsame⟩
  | importThreads threads disk =>
    refine importThreads_induction
      (P := fun other => other.get (folderName pkg id) = root.get (folderName pkg id)) threads
      (fun other hsame thread hthread _ => ?_) 0 rfl
    rw [hsave other disk (hknown thread hthread) fun t ht heq => habout ⟨thread, hthread, t, ht, heq⟩,
      hsame]
  | delete other =>
    simp only [next]
    rcases delete_cases pkg root other with hsame | ⟨-, herased⟩
    · rw [hsame]
    · rw [herased, KeyMap.get_erase, if_neg]
      exact fun hname => habout (h.folderName_inj hid hknown hname).symm
  | clear => exact absurd trivial habout

/-- In every run that names no attachment of its own, whatever writes and removals fail,
the stored conversations are consistent, and every further operation is safe. -/
theorem crash_consistent (hlawful : Lawful pkg D) {root : Root}
    (hrun : Reaches (step pkg)
      (fun root a => Known pkg D root a ∧ ReceivedAction pkg a ∧ BackedAction pkg a) .empty root) :
    Consistent pkg root ∧ ∀ a, Known pkg D root a → ReceivedAction pkg a → BackedAction pkg a →
      CrashSafe pkg D root a := by
  have hkeep : ∀ root root' a, Sound pkg D root ∧ Faithful pkg root →
      Known pkg D root a ∧ ReceivedAction pkg a ∧ BackedAction pkg a →
      step pkg root a = some root' → Sound pkg D root' ∧ Faithful pkg root' := by
    intro root root' a hroot ha hstep
    cases hstep
    exact ⟨hroot.1.next ha.1, hroot.2.next hlawful hroot.1 ha.1 ha.2.1 ha.2.2⟩
  obtain ⟨hsound, hfaithful⟩ := hrun.invariant ⟨Sound.empty, Faithful.empty⟩ hkeep
  refine ⟨hlawful.consistent hfaithful, fun a hknown hreceived hbacked => ?_⟩
  constructor
  · intro thread disk error ha hremoved herror name
    subst ha
    exact save_failed hknown hremoved herror name
  · intro thread disk t ha hremoved hok hfrom
    subst ha
    exact hlawful.save_saved hsound hknown (sendable_of_received hreceived hbacked hfrom) hremoved
      hok hfrom
  · intro threads disk ha name bytes hthread
    subst ha
    exact importThreads_keeps pkg disk threads hthread
  · intro id hid habout
    exact hlawful.others_same hknown hid habout

def attachmentOfNothing : Text := List.replicate 64 '0' ++ ".png".toList

def namedAttachment : List (Text × Json) :=
  [("file".toList, .string (attachmentsFolder ++ '/' :: attachmentOfNothing))]

theorem sampleThread_received {image : List (Text × Json)} (h : (sampleThread image).Ordered) :
    Received (samplePackages image) (sampleThread image) :=
  ⟨h, fun _ ht => samplePackages_reads ht⟩

theorem crash_consistent_upperCase :
    Consistent (samplePackages upperCasePicture) (next (samplePackages upperCasePicture) .empty
      (.save (sampleThread upperCasePicture) {})) ∧
    CrashSafe (samplePackages upperCasePicture) {idBytes, pngBytes}
      (next (samplePackages upperCasePicture) .empty (.save (sampleThread upperCasePicture) {}))
      (.delete "a".toList) := by
  have hreceived : Received (samplePackages upperCasePicture) (sampleThread upperCasePicture) :=
    sampleThread_received (sampleThread_ordered _ _)
  have hbacked : BackedThread (samplePackages upperCasePicture)
      (sampleThread upperCasePicture) := by
    intro u hu message hmessage image himage hnone
    have hall := (sampleThread_images (P := fun image =>
      imageData (samplePackages upperCasePicture) image maxImageBytes ≠ .ok none) hu).mpr
        (by rw [upperCasePicture_data]; exact nofun)
    exact absurd hnone (hall message hmessage image himage)
  have hrun := crash_consistent (samplePackages_lawful upperCasePicture)
    (.next (a := .save (sampleThread upperCasePicture) {}) .start
      ⟨upperCasePicture_known, hreceived, hbacked⟩ rfl)
  exact ⟨hrun.1, hrun.2 _ (.inl rfl) trivial trivial⟩

/-- A picture given by the name of an attachment is left in the thread, and no such
file is there. -/
theorem named_attachment_missing : ∃ root,
    Lawful (samplePackages namedAttachment) {idBytes, pngBytes} ∧
    Reaches (step (samplePackages namedAttachment)) (fun root a =>
      Known (samplePackages namedAttachment) {idBytes, pngBytes} root a ∧
        ReceivedAction (samplePackages namedAttachment) a) .empty root ∧
    ¬ Consistent (samplePackages namedAttachment) root := by
  obtain ⟨t, ht⟩ : ∃ t, StoredThread.fromValue (sampleThread namedAttachment) = some t :=
    Option.isSome_iff_exists.mp (by decide +kernel)
  have hlawful := samplePackages_lawful namedAttachment
  have hknown : KnownThread (samplePackages namedAttachment) {idBytes, pngBytes}
      (sampleThread namedAttachment) :=
    sampleThread_known fun mediaType bytes hbytes => by cases hbytes
  have hreceived : Received (samplePackages namedAttachment) (sampleThread namedAttachment) :=
    sampleThread_received (sampleThread_ordered _ _)
  have hsave := @sample_saved namedAttachment (by decide +kernel)
  obtain ⟨folder, hfolder, hkeeps⟩ := hlawful.holds_of_save Sound.empty hknown ht hsave
  refine ⟨_, hlawful, .next (a := .save (sampleThread namedAttachment) {}) .start
    ⟨hknown, hreceived⟩ rfl, fun hconsistent => ?_⟩
  have hat : folderAt
      (save (samplePackages namedAttachment) {} .empty (sampleThread namedAttachment)).2
      (folderName (samplePackages namedAttachment) t.id) = folder := by rw [folderAt, hfolder]; rfl
  have href : References (written (samplePackages namedAttachment) t) attachmentOfNothing := by
    have hmessages := (sampleThread_messages ht).2
    refine ⟨.object [("images".toList, .array [.object namedAttachment])], ?_,
      .object namedAttachment, List.mem_singleton_self _,
      attachmentsFolder ++ '/' :: attachmentOfNothing, rfl, by decide +kernel⟩
    rw [written, hmessages]
    exact List.mem_singleton_self _
  obtain ⟨content, extension, hheld, -⟩ := hconsistent _ _ _
    (by rw [next, hat]; exact hkeeps.storedThread_eq (hreceived.2 t ht)) href
  have hnone : ((folderAt
      (save (samplePackages namedAttachment) {} .empty (sampleThread namedAttachment)).2
      "a".toList).attachments.get attachmentOfNothing).isNone = true := by decide +kernel
  have hname : folderName (samplePackages namedAttachment) t.id = "a".toList := by
    rw [(sampleThread_messages ht).1]
    rfl
  rw [next, hname] at hheld
  rw [hheld] at hnone
  cases hnone

end AioLM.Conversations
