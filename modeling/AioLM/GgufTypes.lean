import AioLM.Fallible
import AioLM.GgufScan

/-!
Collecting tensor types beside the facts changes nothing about the facts: the
scan with a budget and the plain scan read the same bytes in lockstep.
-/

set_option autoImplicit false

namespace AioLM.Gguf

variable {α β γ : Type}

/-- The same reader without budget and error; `w` is a reason for an error. -/
def Hidden (w : Prop) (s t : Scan) : Prop :=
  t = { reader := s.reader } ∧ (w → s.typeError.isSome)

def Same (w : Prop) : α → α → Scan → Scan → Prop := fun a b s t => a = b ∧ Hidden w s t

/-- What a computation reads does not depend on budget and error. -/
def Oblivious (x : Scanner α) : Prop := ∀ w, Lockstep (Hidden w) (Same w) x x

theorem Lockstep.bind_same {w : Prop} {Q : β → γ → Scan → Scan → Prop} {x : Scanner α}
    (hx : Oblivious x) {f : α → Scanner β} {g : α → Scanner γ}
    (hf : ∀ a, Lockstep (Hidden w) Q (f a) (g a)) : Lockstep (Hidden w) Q (x >>= f) (x >>= g) :=
  (hx w).bind fun a _ => Lockstep.of_pre fun hab => hab ▸ hf a

namespace Oblivious

theorem pure (a : α) : Oblivious (Pure.pure a) := fun _ => Lockstep.pure fun _ _ h => ⟨rfl, h⟩

theorem bind {x : Scanner α} {f : α → Scanner β} (hx : Oblivious x) (hf : ∀ a, Oblivious (f a)) :
    Oblivious (x >>= f) :=
  fun w => Lockstep.bind_same hx fun a => hf a w

theorem ite {p : Prop} [Decidable p] {x y : Scanner α} (hx : Oblivious x) (hy : Oblivious y) :
    Oblivious (if p then x else y) :=
  fun w => Lockstep.ite (fun _ => hx w) fun _ => hy w

theorem loopM {step : α → Scanner α} (hstep : ∀ a, Oblivious (step a)) (n : Nat) (a : α) :
    Oblivious (AioLM.loopM step n a) := by
  induction n generalizing a with
  | zero => exact Oblivious.pure a
  | succ n ih => exact (hstep a).bind ih

theorem collectM {x : Scanner α} (hx : Oblivious x) (n : Nat) :
    Oblivious (AioLM.collectM x n) := by
  induction n with
  | zero => exact Oblivious.pure []
  | succ n ih => exact hx.bind fun a => ih.bind fun as => Oblivious.pure (a :: as)

theorem fail (message : Text) : Oblivious (Gguf.fail message : Scanner α) := fun _ _ _ _ => rfl

theorem onReader (f : Reader → Except Text Reader) : Oblivious (Gguf.onReader f) := by
  intro w s t ⟨ht, hw⟩
  rw [ht]
  simp only [Gguf.onReader]
  cases f s.reader with
  | error message => exact rfl
  | ok reader => exact ⟨rfl, rfl, hw⟩

theorem readExact (n : Nat) : Oblivious (Gguf.readExact n) := by
  intro w s t ⟨ht, hw⟩
  rw [ht]
  simp only [Gguf.readExact]
  split
  · exact ⟨rfl, rfl, hw⟩
  · exact rfl

theorem rememberBudgetError (charge : StringBudget → Except Text StringBudget) :
    Oblivious (Gguf.rememberBudgetError charge) := by
  intro w s t ⟨ht, hw⟩
  rw [ht]
  simp only [Gguf.rememberBudgetError]
  split
  · exact ⟨rfl, rfl, hw⟩
  · split
    · exact ⟨rfl, rfl, hw⟩
    · refine ⟨rfl, rfl, fun _ => ?_⟩
      simp

theorem withoutBudget (x : Scanner α) : Oblivious (Gguf.withoutBudget x) := by
  intro w s t ⟨ht, hw⟩
  rw [ht]
  simp only [Gguf.withoutBudget]
  cases x { reader := s.reader } with
  | error message => exact rfl
  | ok outcome => exact ⟨rfl, rfl, hw⟩

theorem bytes (n : Nat) : Oblivious (Gguf.bytes n) :=
  (onReader _).bind fun _ => readExact n

theorem u32 : Oblivious Gguf.u32 := (bytes 4).bind fun _ => pure _

theorem u64 : Oblivious Gguf.u64 := (bytes 8).bind fun _ => pure _

theorem skip (count : Nat) : Oblivious (Gguf.skip count) :=
  ite ((onReader _).bind fun _ => onReader _) (fail _)

theorem stringPayload (length : Nat) : Oblivious (Gguf.stringPayload length) := by
  refine ite ((skip length).bind fun _ => pure _) ?_
  refine (onReader _).bind fun _ => (rememberBudgetError _).bind fun _ => ?_
  exact (onReader _).bind fun _ => (readExact length).bind fun _ => pure _

theorem stringWithBudget : Oblivious Gguf.stringWithBudget :=
  (onReader _).bind fun _ => u64.bind fun length =>
    (rememberBudgetError _).bind fun _ => stringPayload length

theorem skipArrayBodyWithBudget (element count : Nat) :
    Oblivious (Gguf.skipArrayBodyWithBudget element count) := by
  refine ite (fail _) ?_
  cases scalarWidth element with
  | some width => exact ite (skip _) (fail _)
  | none =>
    refine ite (fail _) ((onReader _).bind fun _ => (rememberBudgetError _).bind fun _ => ?_)
    exact loopM (fun _ => u64.bind skip) count ()

theorem skipValueWithBudget (kind : Nat) : Oblivious (Gguf.skipValueWithBudget kind) := by
  unfold Gguf.skipValueWithBudget
  cases scalarWidth kind with
  | some width => exact skip width
  | none =>
    refine ite (u64.bind skip) (ite ?_ (fail _))
    exact u32.bind fun element => u64.bind fun count => skipArrayBodyWithBudget element count

theorem readIntegerWithBudget (kind : Nat) : Oblivious (Gguf.readIntegerWithBudget kind) := by
  unfold Gguf.readIntegerWithBudget
  split
  case h_10 => exact (skipValueWithBudget _).bind fun _ => pure _
  case h_5 => exact u32.bind fun _ => pure _
  case h_8 => exact u64.bind fun _ => pure _
  all_goals exact (bytes _).bind fun _ => pure _

theorem readRawArray (element count : Nat) : Oblivious (Gguf.readRawArray element count) :=
  ite ((skipArrayBodyWithBudget element count).bind fun _ => pure _)
    ((collectM (withoutBudget _) count).bind fun _ => pure _)

theorem readRawWithBudget (kind : Nat) : Oblivious (Gguf.readRawWithBudget kind) :=
  ite ((readIntegerWithBudget kind).bind fun _ => pure _)
    (u32.bind fun element => u64.bind fun count => readRawArray element count)

theorem readHeader : Oblivious Gguf.readHeader := by
  refine (bytes 4).bind fun _ => ite (fail _) (u32.bind fun _ => ite (fail _) ?_)
  exact u64.bind fun _ => u64.bind fun _ => ite (fail _) (pure _)

theorem readFactValue (scan : FactScan) (key : Text) (kind : Nat) :
    Oblivious (Gguf.readFactValue scan key kind) := by
  refine ite ((withoutBudget _).bind fun _ => pure _) (ite ?_ (ite ?_ (ite ?_ ?_)))
  · exact (readIntegerWithBudget kind).bind fun _ => pure _
  · exact (readIntegerWithBudget kind).bind fun _ => pure _
  · exact (readRawWithBudget kind).bind fun _ => pure _
  · exact (skipValueWithBudget kind).bind fun _ => pure _

theorem readFact (scan : FactScan) : Oblivious (Gguf.readFact scan) :=
  stringWithBudget.bind fun key => u32.bind fun kind => readFactValue scan key kind

theorem readFacts : Oblivious Gguf.readFacts := by
  refine readHeader.bind fun (tensors, keys) => ite (fail _) ?_
  exact (loopM readFact keys _).bind fun scan => ite (fail _) (pure _)

theorem readTensorName : Oblivious Gguf.readTensorName :=
  u64.bind fun length => ite (fail _) ((onReader _).bind fun _ => readExact length)

theorem readShape : Oblivious Gguf.readShape :=
  u32.bind fun dims => ite (fail _) (collectM u64 dims)

theorem chargeTensorName (length : Nat) : Oblivious (Gguf.chargeTensorName length) :=
  (rememberBudgetError _).bind fun _ => ite (rememberBudgetError _) (pure ())

end Oblivious

structure TensorInfo where
  name : Text
  shape : List Nat
  kind : Nat
  offset : Nat

/-- One entry of the tensor table, as it stands in the file. -/
def readTensorInfo : Scanner TensorInfo := do
  let buffer ← readTensorName
  let shape ← readShape
  let kind ← u32
  let offset ← u64
  return ⟨Utf8.lossy buffer, shape, kind, offset⟩

def TensorInfo.placed (info : TensorInfo) : Placed :=
  ⟨info.offset, classifyTensor info.name, info.name = perLayerTokenEmbdName⟩

def TensorInfo.typed (info : TensorInfo) : Text × Nat := (info.name, info.kind)

def TensorInfo.fault (info : TensorInfo) : Option Text :=
  tensorFault info.name info.shape.length (info.shape.any fun dim => dim = 0)

/-- A walk over further entries, from one state of it to another. -/
structure Tracks (before : TensorWalk) (infos : List TensorInfo) (after : TensorWalk) : Prop where
  summary : after.summary =
    infos.foldl (fun summary info => summary.note info.name info.shape) before.summary
  entries : after.entries = before.entries ++ infos.map TensorInfo.placed
  types : ∀ types, after.tensorTypes = some types → ∃ start, before.tensorTypes = some start ∧
    types = start ++ infos.map TensorInfo.typed ∧ ∀ info ∈ infos, info.fault = none

theorem Tracks.refl (walk : TensorWalk) : Tracks walk [] walk :=
  ⟨rfl, (List.append_nil _).symm, fun types h => ⟨types, h, (List.append_nil _).symm, by simp⟩⟩

theorem Tracks.cons {before middle after : TensorWalk} {info : TensorInfo}
    {infos : List TensorInfo} (h : Tracks before [info] middle) (h' : Tracks middle infos after) :
    Tracks before (info :: infos) after where
  summary := by
    rw [h'.summary, h.summary]
    rfl
  entries := by
    rw [h'.entries, h.entries, List.append_assoc]
    rfl
  types types htypes := by
    obtain ⟨more, hmore, hlast, hfaults⟩ := h'.types types htypes
    obtain ⟨start, hstart, hfirst, hfault⟩ := h.types more hmore
    refine ⟨start, hstart, ?_, List.forall_mem_cons.mpr ⟨hfault info (by simp), hfaults⟩⟩
    rw [hlast, hfirst, List.append_assoc]
    rfl

theorem rememberBudgetError_silent (charge : StringBudget → Except Text StringBudget) (w : Prop) :
    Lockstep (Hidden w) (fun _ _ => Hidden w) (rememberBudgetError charge)
      (pure () : Scanner Unit) := by
  intro s t ⟨ht, hw⟩
  rw [ht]
  simp only [rememberBudgetError]
  split
  · exact ⟨rfl, hw⟩
  · split
    · exact ⟨rfl, hw⟩
    · refine ⟨rfl, fun _ => ?_⟩
      simp

theorem chargeTensorName_silent (length : Nat) (w : Prop) :
    Lockstep (Hidden w) (fun _ _ => Hidden w) (chargeTensorName length)
      (pure () : Scanner Unit) := by
  refine (rememberBudgetError_silent _ w).bind_left fun _ => ?_
  split
  · exact rememberBudgetError_silent _ w
  · exact Lockstep.pure fun _ _ h => h

theorem getTypeError_silent (w : Prop) :
    Lockstep (Hidden w) (fun error _ s t => Hidden w s t ∧ error = s.typeError) getTypeError
      (pure () : Scanner Unit) :=
  fun _ _ h => ⟨h, rfl⟩

theorem setTypeError_silent (message : Text) (w w' : Prop) :
    Lockstep (Hidden w) (fun _ _ => Hidden w') (setTypeError message) (pure () : Scanner Unit) := by
  intro s t ⟨ht, _⟩
  refine ⟨ht, fun _ => ?_⟩
  cases s.typeError <;> simp

section

variable (collect : Prop)

/-- A run that collects has its types until it has an error. -/
abbrev Lost (types : Option (List (Text × Nat))) : Prop := collect ∧ types = none

theorem pushType_lockstep (info : TensorInfo) (types : Option (List (Text × Nat))) :
    Lockstep (Hidden (Lost collect types))
      (fun pushed _ s t => (∀ more, pushed = some more → ∃ start, types = some start ∧
        more = start ++ [info.typed] ∧ info.fault = none) ∧ Hidden (Lost collect pushed) s t)
      (pushType info.name info.shape info.kind types) (pure () : Scanner Unit) := by
  cases types with
  | none => exact Lockstep.pure fun _ _ h => ⟨fun _ hmore => (nomatch hmore), h⟩
  | some start =>
    simp only [pushType]
    split
    · rename_i hfault
      refine Lockstep.pure fun s t h => ⟨fun more hmore => ?_, h.1, fun hlost => nomatch hlost.2⟩
      cases hmore
      exact ⟨start, rfl, rfl, hfault⟩
    · refine (setTypeError_silent _ _ (Lost collect none)).bind_left fun _ => ?_
      exact Lockstep.pure fun _ _ h => ⟨fun _ hmore => (nomatch hmore), h⟩

theorem readTensor_lockstep (walk : TensorWalk) :
    Lockstep (Hidden (Lost collect walk.tensorTypes))
      (fun after info s t =>
        Tracks walk [info] after ∧ Hidden (Lost collect after.tensorTypes) s t)
      (readTensor walk) readTensorInfo := by
  refine Lockstep.bind_same Oblivious.readTensorName fun buffer => ?_
  refine (chargeTensorName_silent _ _).bind_left fun _ => ?_
  refine (getTypeError_silent _).bind_left fun charged => ?_
  simp only
  generalize htypes : (if charged.isSome = true then none else walk.tensorTypes) = types
  have hsub : ∀ start, types = some start → walk.tensorTypes = some start := by
    intro start hstart
    rw [← htypes] at hstart
    split at hstart
    · cases hstart
    · exact hstart
  refine Lockstep.mono (P := Hidden (Lost collect types)) ?_ (fun _ _ _ _ h => h) ?_
  · intro s t ⟨⟨ht, hw⟩, hcharged⟩
    refine ⟨ht, fun hlost => ?_⟩
    rw [← htypes] at hlost
    split at hlost
    · rename_i hsome
      rw [← hcharged]
      exact hsome
    · exact hw hlost
  · refine Lockstep.bind_same Oblivious.readShape fun shape => ?_
    refine Lockstep.bind_same Oblivious.u32 fun kind => ?_
    refine Lockstep.bind_same Oblivious.u64 fun offset => ?_
    refine (pushType_lockstep collect ⟨Utf8.lossy buffer, shape, kind, offset⟩ types).bind_left
      fun pushed => Lockstep.pure fun s t ⟨hpushed, hhidden⟩ => ⟨⟨rfl, rfl, ?_⟩, hhidden⟩
    intro more hmore
    obtain ⟨start, hstart, hlast, hfault⟩ := hpushed more hmore
    exact ⟨start, hsub start hstart, hlast, by simpa using hfault⟩

theorem readTensors_lockstep (count : Nat) (walk : TensorWalk) :
    Lockstep (Hidden (Lost collect walk.tensorTypes))
      (fun after infos s t =>
        Tracks walk infos after ∧ Hidden (Lost collect after.tensorTypes) s t)
      (loopM readTensor count walk) (collectM readTensorInfo count) := by
  induction count generalizing walk with
  | zero => exact Lockstep.pure fun _ _ h => ⟨Tracks.refl walk, h⟩
  | succ count ih =>
    refine (readTensor_lockstep collect walk).bind fun middle info => ?_
    refine Lockstep.of_pre fun hfirst => ?_
    exact (ih middle).map_right fun after infos s t h => ⟨hfirst.cons h.1, h.2⟩

end

def readTable (count alignment fileLen : Nat) : Scanner (List TensorInfo × Option TensorBytes) := do
  let infos ← collectM readTensorInfo count
  let dataStart := alignUp (← getConsumed) alignment
  if 2 ^ 64 ≤ dataStart then fail "GGUF header declares an implausible data offset".toList
  else if fileLen < dataStart then return (infos, none)
  else
    let sorted := (infos.map TensorInfo.placed).mergeSort fun a b => a.offset ≤ b.offset
    let noted := infos.foldl (fun summary info => summary.note info.name info.shape) {}
    return (infos, sizeTensors (fileLen - dataStart) sorted noted)

def TypesOf (collectTensorTypes : Bool) (infos : List TensorInfo)
    (result : Option (Except Text (List (Text × Nat)))) : Prop :=
  result.isSome = collectTensorTypes ∧ ∀ types, result = some (.ok types) →
    types = infos.map TensorInfo.typed ∧ ∀ info ∈ infos, info.fault = none

theorem getConsumed_oblivious : Oblivious getConsumed := by
  intro w s t ⟨ht, hw⟩
  rw [ht]
  exact ⟨rfl, rfl, hw⟩

theorem startWalk_silent (collectTensorTypes : Bool) (count : Nat) :
    Lockstep (Hidden False)
      (fun walk _ s t => (walk.summary = {} ∧ walk.entries = [] ∧
        ∀ types, walk.tensorTypes = some types → types = []) ∧
          Hidden (Lost (collectTensorTypes = true) walk.tensorTypes) s t)
      (startWalk collectTensorTypes count) (pure () : Scanner Unit) := by
  have hnone (types : List (Text × Nat)) (h : none = some types) : types = [] := nomatch h
  refine (getTypeError_silent False).bind_left fun before => ?_
  cases collectTensorTypes with
  | false =>
    exact Lockstep.pure fun s t h => ⟨⟨rfl, rfl, hnone⟩, h.1.1, fun hlost => nomatch hlost.1⟩
  | true =>
    simp only [Bool.not_true, Bool.false_eq_true, if_false]
    split
    · refine Lockstep.mono (fun s t h => h.1) (fun _ _ _ _ h => h)
        ((setTypeError_silent emptyTable False True).bind_left fun _ =>
          Lockstep.pure fun s t h => ⟨⟨rfl, rfl, hnone⟩, h.1, fun _ => h.2 trivial⟩)
    · refine Lockstep.pure fun s t ⟨h, hbefore⟩ => ⟨⟨rfl, rfl, ?_⟩, h.1, ?_⟩
      · intro types htypes
        simp only at htypes
        split at htypes
        · cases htypes
          rfl
        · cases htypes
      · intro ⟨_, hlost⟩
        rw [← hbefore]
        cases before with
        | none => cases hlost
        | some _ => rfl

/-- Where types are asked for, some were kept or an error was met: the `expect`
of the last case is never reached. -/
theorem typesResult_silent (collectTensorTypes valid : Bool) (error : Option Text)
    (types : Option (List (Text × Nat))) :
    Lockstep
      (fun s t => Hidden (Lost (collectTensorTypes = true) types) s t ∧ error = s.typeError)
      (fun result _ _ _ => result.isSome = collectTensorTypes ∧
        ∀ found, result = some (.ok found) → types = some found)
      (typesResult collectTensorTypes valid error types) (pure () : Scanner Unit) := by
  cases collectTensorTypes with
  | false => exact Lockstep.pure fun _ _ _ => ⟨rfl, fun _ h => nomatch h⟩
  | true =>
    cases valid with
    | false => exact Lockstep.pure fun _ _ _ => ⟨rfl, fun _ h => nomatch h⟩
    | true =>
      cases error with
      | some message => exact Lockstep.pure fun _ _ _ => ⟨rfl, fun _ h => nomatch h⟩
      | none =>
        cases types with
        | some found =>
          refine Lockstep.pure fun _ _ _ => ⟨rfl, fun _ h => ?_⟩
          cases h
          rfl
        | none =>
          intro s t ⟨hhidden, herror⟩
          have hsome := hhidden.2 ⟨rfl, rfl⟩
          rw [← herror] at hsome
          cases hsome

theorem readTensorBytes_lockstep (count alignment fileLen : Nat) (collectTensorTypes : Bool) :
    Lockstep (Hidden False)
      (fun scan table _ _ => scan.bytes = table.2 ∧ TypesOf collectTensorTypes table.1 scan.tensorTypes)
      (readTensorBytes count alignment fileLen collectTensorTypes)
      (readTable count alignment fileLen) := by
  refine (startWalk_silent collectTensorTypes count).bind_left fun walk => ?_
  refine Lockstep.of_pre fun hstart => ?_
  refine (readTensors_lockstep _ count walk).bind fun after infos => ?_
  refine Lockstep.of_pre fun htracks => ?_
  refine Lockstep.bind_same getConsumed_oblivious fun consumed => ?_
  refine Lockstep.ite (fun _ => fun _ _ _ => rfl) fun _ => ?_
  refine Lockstep.ite (fun _ => ?_) fun _ => ?_
  · refine Lockstep.pure fun _ _ _ => ⟨rfl, ?_⟩
    cases collectTensorTypes with
    | false => exact ⟨rfl, fun _ h => nomatch h⟩
    | true => exact ⟨rfl, fun _ h => nomatch h⟩
  · have hbytes : after.entries = infos.map TensorInfo.placed ∧ after.summary =
        infos.foldl (fun summary info => summary.note info.name info.shape) {} := by
      rw [htracks.entries, htracks.summary, hstart.1, hstart.2.1]
      exact ⟨rfl, rfl⟩
    refine (getTypeError_silent _).bind_left fun error => ?_
    refine (typesResult_silent collectTensorTypes _ error after.tensorTypes).bind_left
      fun result => Lockstep.pure fun _ _ hresult => ⟨?_, hresult.1, fun found hfound => ?_⟩
    · simp only [hbytes]
    · obtain ⟨start, hsome, htypes, hfaults⟩ := htracks.types found (hresult.2 found hfound)
      cases hstart.2.2 start hsome
      exact ⟨htypes, hfaults⟩

def scanTable (fileLen : Nat) : Nat × FactScan → Scanner (ModelFacts × List TensorInfo) :=
  fun (tensors, scan) => do
    let table ← readTable tensors scan.alignment fileLen
    return (scan.finish table.2, table.1)

theorem scan_lockstep (fileLen : Nat) (collectTensorTypes : Bool) :
    Lockstep (Hidden False)
      (fun scan table _ _ =>
        scan.facts = table.1 ∧ TypesOf collectTensorTypes table.2 scan.tensorTypes)
      (readFacts >>= scanTensors fileLen collectTensorTypes) (readFacts >>= scanTable fileLen) := by
  refine Lockstep.bind_same Oblivious.readFacts fun (tensors, scan) => ?_
  refine (readTensorBytes_lockstep tensors scan.alignment fileLen collectTensorTypes).bind
    fun found table => Lockstep.pure fun _ _ h => ⟨?_, h.2⟩
  exact congrArg scan.finish h.1

def tensorInfos (file : Bytes) : Except Text (List TensorInfo) :=
  scanFile (do
    let (tensors, _) ← readFacts
    collectM readTensorInfo tensors) file

def tensorCount (file : Bytes) : Except Text Nat :=
  scanFile (do return (← readFacts).1) file

theorem tensorInfos_of_table {file : Bytes} {facts : ModelFacts} {infos : List TensorInfo}
    {s : Scan} (h : (readFacts >>= scanTable file.length) { reader := { rest := file } } =
      .ok ((facts, infos), s)) :
    tensorInfos file = .ok infos ∧ tensorCount file = .ok infos.length := by
  obtain ⟨⟨tensors, scan⟩, s₁, hfacts, htable⟩ := run_bind_eq_ok h
  obtain ⟨table, s₂, hread, hresult⟩ := run_bind_eq_ok htable
  obtain ⟨found, s₃, hinfos, hrest⟩ := run_bind_eq_ok hread
  have hsame : infos = found := by
    obtain ⟨consumed, s₄, -, hend⟩ := run_bind_eq_ok hrest
    simp only at hend
    split at hend
    · cases hend
    · split at hend <;> cases hend <;> cases hresult <;> rfl
  rw [hsame, length_collectM hinfos]
  refine ⟨?_, ?_⟩
  · rw [tensorInfos, scanFile, run_bind_ok hfacts]
    simp only [hinfos]
  · rw [tensorCount, scanFile, run_bind_ok hfacts]
    rfl

theorem TensorInfo.name_of_fault {info : TensorInfo} (h : info.fault = none) :
    info.name ≠ [] ∧ Text.utf8Len info.name ≤ 256 := by
  unfold fault tensorFault at h
  split at h
  · cases h
  · rename_i hname
    rw [not_or, Nat.not_lt] at hname
    exact hname

/-- Whatever the bytes of the file, the scan that collects tensor types has the
facts or the error of the plain scan. The types it returns are those of the
table, one for each tensor in the order of the file. -/
theorem scanModel_types_neutral (file : Bytes) :
    (scanModel file true).map ModelScan.facts = (scanModel file false).map ModelScan.facts ∧
    ∀ scan, scanModel file true = .ok scan →
      ∃ result, scan.tensorTypes = some result ∧ ∀ types, result = .ok types →
        ∃ infos, tensorInfos file = .ok infos ∧ tensorCount file = .ok infos.length ∧
          types = infos.map TensorInfo.typed ∧
          ∀ entry ∈ types, entry.1 ≠ [] ∧ Text.utf8Len entry.1 ≤ 256 := by
  have hagree (collectTensorTypes : Bool) := scan_lockstep file.length collectTensorTypes
    (startScan file collectTensorTypes) (startScan file false) ⟨rfl, False.elim⟩
  cases htable : (readFacts >>= scanTable file.length) (startScan file false) with
  | error message =>
    have herror (collectTensorTypes : Bool) : scanModel file collectTensorTypes = .error message := by
      rw [scanModel, (hagree collectTensorTypes).error_right htable]
    rw [herror true, herror false]
    exact ⟨rfl, fun _ h => nomatch h⟩
  | ok outcome =>
    obtain ⟨⟨facts, infos⟩, s⟩ := outcome
    have hscan (collectTensorTypes : Bool) : ∃ scan, scanModel file collectTensorTypes = .ok scan ∧
        scan.facts = facts ∧ TypesOf collectTensorTypes infos scan.tensorTypes := by
      obtain ⟨scan, s', hrun, hfacts, htypes⟩ := (hagree collectTensorTypes).ok_right htable
      exact ⟨scan, by rw [scanModel, hrun], hfacts, htypes⟩
    obtain ⟨typed, htyped, hfacts, hsome, htypes⟩ := hscan true
    obtain ⟨plain, hplain, hfacts', -⟩ := hscan false
    rw [htyped, hplain]
    refine ⟨congrArg Except.ok (hfacts.trans hfacts'.symm), fun scan h => ?_⟩
    cases h
    obtain ⟨result, hresult⟩ := Option.isSome_iff_exists.mp hsome
    refine ⟨result, hresult, fun types hok => ?_⟩
    obtain ⟨heq, hfaults⟩ := htypes types (by rw [hresult, hok])
    obtain ⟨hinfos, hcount⟩ := tensorInfos_of_table htable
    refine ⟨infos, hinfos, hcount, heq, ?_⟩
    rw [heq, List.forall_mem_map]
    exact fun info hinfo => TensorInfo.name_of_fault (hfaults info hinfo)

/-- One tensor of four numbers, its data after the padding. -/
def oneTensor : Bytes :=
  TextBytes.ascii "GGUF" ++ leBytes 4 3 ++ leBytes 8 1 ++ leBytes 8 0 ++
    leBytes 8 1 ++ TextBytes.ascii "t" ++ leBytes 4 1 ++ leBytes 8 4 ++ leBytes 4 0 ++
    leBytes 8 0 ++ List.replicate 23 0

theorem scanModel_types_neutral_one :
    ∃ scan infos, scanModel oneTensor true = .ok scan ∧ tensorInfos oneTensor = .ok infos ∧
      scan.tensorTypes = some (.ok (infos.map TensorInfo.typed)) := by
  obtain ⟨scan, hscan⟩ := Fallible.exists_of_isOk
    (show (scanModel oneTensor true).isOk = true by decide +kernel)
  have hcollected : ((scanModel oneTensor true).toOption.bind
      fun scan => scan.tensorTypes.map Except.isOk) = some true := by
    decide +kernel
  rw [hscan] at hcollected
  obtain ⟨result, hresult, hok⟩ := Option.map_eq_some_iff.mp hcollected
  obtain ⟨types, rfl⟩ := Fallible.exists_of_isOk hok
  obtain ⟨result, hresult', htypes⟩ := (scanModel_types_neutral oneTensor).2 _ hscan
  obtain rfl := Option.some.inj (hresult.symm.trans hresult')
  obtain ⟨infos, hinfos, -, rfl, -⟩ := htypes types rfl
  exact ⟨scan, infos, hscan, hinfos, hresult⟩

end AioLM.Gguf
