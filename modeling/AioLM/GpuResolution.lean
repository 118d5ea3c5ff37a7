import AioLM.GpuDevices
import AioLM.Lists

/-!
Selected GPUs as device names of the runtime that is about to be launched.
-/

set_option autoImplicit false

namespace AioLM.Gpu

open Fallible

variable {F : Type}

structure ResolvedGpu (F : Type) where
  deviceFlag : Option Text := none
  mainGpuIndex : Option Nat := none
  splitMode : Option Text := none
  tensorSplit : List F := []
  draftDevice : Option Text := none

/-- `[_]::join(",")` -/
def joinComma (names : List Text) : Text := List.intercalate [','] names

/-- `--main-gpu` indexes the selected `--device` list, not the global one. -/
def mainDeviceIndex (placement : GpuPlacement F) (id : Text) (runtimeIndex : Nat) :
    Except Text Nat :=
  if placement.gpuIds.isEmpty then .ok runtimeIndex
  else orError (placement.gpuIds.findIdx? (· = id))
    ("main GPU '".toList ++ id ++ "' is not in the selected device list".toList)

section Resolve

variable {δ : Type} (name : δ → Text) (index : δ → Nat) (resolveId : Text → Except Text δ)

def resolveDevices (ids : List Text) : Except Text (Option Text) :=
  if ids.isEmpty then .ok none
  else do
    let devices ← ids.mapM resolveId
    return some (joinComma (devices.map name))

def resolveMain (placement : GpuPlacement F) : Option Text → Except Text (Option Nat)
  | none => .ok none
  | some id => do
    let device ← resolveId id
    let place ← mainDeviceIndex placement id (index device)
    return some place

def resolveDraft : Option Text → Except Text (Option Text)
  | none => .ok none
  | some id => do
    let device ← resolveId id
    return some (name device)

/-- The selection with each id resolved: the device list, the main device and the
device of the draft model. -/
def resolveWith (placement : GpuPlacement F) : Except Text (ResolvedGpu F) := do
  let deviceFlag ← resolveDevices name resolveId placement.gpuIds
  let mainGpuIndex ← resolveMain index resolveId placement placement.mainGpu
  let draftDevice ← resolveDraft name resolveId placement.draftGpuId
  return {
    deviceFlag := deviceFlag
    mainGpuIndex := mainGpuIndex
    splitMode := placement.splitMode.asFlagValue
    tensorSplit := placement.tensorSplit
    draftDevice := draftDevice }

end Resolve

/-- The place of a card in the pool stands for its place in the runtime. -/
def indexOf (pool : List GpuDevice) (backend id : Text) : Except Text Nat :=
  orError (pool.findIdx? fun gpu => gpu.stableId = id)
    ("configured GPU '".toList ++ id ++ "' was not found on this machine for backend '".toList ++
      backend ++ "'; reselect a detected GPU rather than starting without one".toList)

def noPinning (backend : Text) : Text :=
  "GPU placement is configured but backend '".toList ++
    (if backend.isEmpty then "(none selected)".toList else backend) ++
    ("' does not support pinning devices by id; select cuda, rocm, vulkan, sycl, or metal, " ++
      "or clear the GPU assignment").toList

def resolve (placement : GpuPlacement F) (backend : Text) (profile : DeviceProfile) :
    Except Text (ResolvedGpu F) :=
  if placement.isEmpty then .ok {}
  else
    match devicePrefix backend with
    | none => .error (noPinning backend)
    | some start =>
      resolveWith (fun index => start ++ Nat.toDigits 10 index) id
        (indexOf (devicePool profile backend) backend) placement

def containsText (text pattern : Text) : Bool := (Search.find pattern text).isSome

/-- Whether a reported device can be this card: by name either way, by chipset or by
the stable id. -/
def answersTo (gpu : GpuDevice) (device : RuntimeDevice) : Bool :=
  let name := searchable gpu.name
  let stable := searchable gpu.stableId
  (!name.isEmpty &&
      (containsText device.searchable name || containsText name device.searchable)) ||
    (gpu.pciId.map searchable).any (fun pci => !pci.isEmpty && containsText device.searchable pci) ||
    (!stable.isEmpty && containsText device.searchable stable)

def describe (gpu : GpuDevice) : Text :=
  "GPU '".toList ++ gpu.name ++ "' (".toList ++ gpu.stableId ++ ")".toList

def resolveId (backend start : Text) (pool : List GpuDevice) (devices : List RuntimeDevice)
    (id : Text) : Except Text RuntimeDevice :=
  if "runtime:".toList.isPrefixOf id then
    orError ((Text.stripPrefix (runtimeId backend []) id).bind fun name =>
        devices.find? fun device => device.name = name)
      ("runtime GPU '".toList ++ id ++ "' is unavailable for ".toList ++ backend ++
        "; probe and reselect a runtime device".toList)
  else do
    let gpu ← orError (pool.find? fun gpu => gpu.stableId = id)
      ("configured GPU '".toList ++ id ++
        "' was not found on this machine for backend '".toList ++ backend ++ "'".toList)
    match devices.filter (answersTo gpu) with
    | [device] => return device
    | [] => throw (describe gpu ++
        " could not be matched to the devices reported by the selected runtime".toList)
    | _ => throw (describe gpu ++
        (" is ambiguous in the runtime device list; refresh GPU choices and select an " ++
          "explicit ").toList ++ start ++
        " runtime device instead of guessing physical GPU order".toList)

def resolveWithRuntimeDevices (placement : GpuPlacement F) (backend : Text)
    (profile : DeviceProfile) (lines : List Text) : Except Text (ResolvedGpu F) :=
  if placement.isEmpty then .ok {}
  else
    match devicePrefix backend with
    | none => resolve placement backend profile
    | some start => do
      let devices := parseRuntimeDevices lines start
      require (devices ≠ [])
        ("the selected ".toList ++ backend ++ " runtime did not report any ".toList ++ start ++
          " devices; refresh the runtime probe or clear the GPU assignment".toList)
      resolveWith (·.name) (·.index)
        (resolveId backend start (devicePool profile backend) devices) placement

section Matching

variable (backend start : Text) (pool : List GpuDevice) (devices : List RuntimeDevice)

def Matches (id : Text) (device : RuntimeDevice) : Prop :=
  if "runtime:".toList.isPrefixOf id then id = runtimeId backend device.name
  else ∃ gpu ∈ pool, gpu.stableId = id ∧ answersTo gpu device = true

structure ResolvesTo (id : Text) (device : RuntimeDevice) : Prop where
  reported : device ∈ devices
  fits : Matches backend pool id device
  only : ∀ other ∈ devices, Matches backend pool id other → other = device

end Matching

variable {backend start id id' : Text} {pool : List GpuDevice} {devices : List RuntimeDevice}
  {device : RuntimeDevice}

theorem find_name_iff (hnames : (devices.map (·.name)).Nodup) {name : Text} :
    devices.find? (fun device => device.name = name) = some device ↔
      device ∈ devices ∧ device.name = name := by
  constructor
  · intro h
    exact ⟨List.mem_of_find?_eq_some h, by simpa using List.find?_some h⟩
  · rintro ⟨hmem, rfl⟩
    exact Lists.find_key_eq hnames hmem

/-- One element passes a test when it is the only one and comes once. -/
theorem filter_singleton_iff {p : RuntimeDevice → Bool} (hnodup : devices.Nodup) :
    devices.filter p = [device] ↔
      device ∈ devices ∧ p device = true ∧ ∀ other ∈ devices, p other = true → other = device := by
  constructor
  · intro h
    have hmem : ∀ other, other ∈ devices.filter p ↔ other = device := by simp [h]
    simp only [List.mem_filter] at hmem
    obtain ⟨hin, hp⟩ := (hmem device).mpr rfl
    exact ⟨hin, hp, fun other hother hpass => (hmem other).mp ⟨hother, hpass⟩⟩
  · rintro ⟨hin, hp, honly⟩
    refine List.perm_singleton.mp ((List.perm_ext_iff_of_nodup (hnodup.filter p)
      (List.nodup_singleton device)).mpr fun other => ?_)
    rw [List.mem_filter, List.mem_singleton]
    constructor
    · rintro ⟨hother, hpass⟩
      exact honly other hother hpass
    · rintro rfl
      exact ⟨hin, hp⟩

theorem match_singleton_eq_ok {xs : List RuntimeDevice} {none many : Text} :
    (match xs with
      | [device] => .ok device
      | [] => .error none
      | _ => .error many : Except Text RuntimeDevice) = .ok device ↔ xs = [device] := by
  rcases xs with _ | ⟨x, _ | ⟨y, ys⟩⟩ <;> simp

theorem resolveId_eq_ok (hpool : (pool.map (·.stableId)).Nodup)
    (hnames : (devices.map (·.name)).Nodup) :
    resolveId backend start pool devices id = .ok device ↔
      ResolvesTo backend pool devices id device := by
  have hmatches : ResolvesTo backend pool devices id device ↔ device ∈ devices ∧
      Matches backend pool id device ∧
      ∀ other ∈ devices, Matches backend pool id other → other = device :=
    ⟨fun h => ⟨h.reported, h.fits, h.only⟩, fun h => ⟨h.1, h.2.1, h.2.2⟩⟩
  rw [hmatches]
  unfold resolveId Matches
  by_cases hruntime : "runtime:".toList.isPrefixOf id = true
  · simp only [if_pos hruntime, orError_eq_ok, Option.bind_eq_some_iff, stripPrefix_runtimeId,
      find_name_iff hnames]
    constructor
    · rintro ⟨name, rfl, hmem, rfl⟩
      refine ⟨hmem, rfl, fun other hother heq => ?_⟩
      exact Lists.eq_of_key_eq hnames hother hmem (runtimeId_injective heq).symm
    · rintro ⟨hmem, rfl, -⟩
      exact ⟨device.name, rfl, hmem, rfl⟩
  · simp only [if_neg hruntime, bind_eq_ok, orError_eq_ok]
    have hcard : ∀ gpu, pool.find? (fun gpu => gpu.stableId = id) = some gpu ↔
        gpu ∈ pool ∧ gpu.stableId = id := by
      intro gpu
      constructor
      · intro h
        exact ⟨List.mem_of_find?_eq_some h, by simpa using List.find?_some h⟩
      · rintro ⟨hmem, rfl⟩
        exact Lists.find_key_eq hpool hmem
    have hthe : ∀ {gpu}, gpu ∈ pool → gpu.stableId = id → ∀ other,
        (∃ gpu ∈ pool, gpu.stableId = id ∧ answersTo gpu other = true) ↔
          answersTo gpu other = true := by
      intro gpu hgpu hid other
      constructor
      · rintro ⟨gpu', hgpu', hid', hanswers⟩
        rwa [← Lists.eq_of_key_eq hpool hgpu' hgpu (hid'.trans hid.symm)]
      · exact fun hanswers => ⟨gpu, hgpu, hid, hanswers⟩
    constructor
    · rintro ⟨gpu, hgpu, hone⟩
      obtain ⟨hmem, hid⟩ := (hcard gpu).mp hgpu
      simp only [hthe hmem hid]
      exact (filter_singleton_iff hnames.of_map).mp (match_singleton_eq_ok.mp hone)
    · rintro ⟨hmem, ⟨gpu, hgpu, hid, hanswers⟩, honly⟩
      simp only [hthe hgpu hid] at honly
      refine ⟨gpu, (hcard gpu).mpr ⟨hgpu, hid⟩, match_singleton_eq_ok.mpr ?_⟩
      exact (filter_singleton_iff hnames.of_map).mpr ⟨hmem, hanswers, honly⟩

variable {placement : GpuPlacement F} {resolved : ResolvedGpu F} {profile : DeviceProfile}
  {lines : List Text}

def runtimeDevices (backend : Text) (lines : List Text) : List RuntimeDevice :=
  match devicePrefix backend with
  | none => []
  | some start => parseRuntimeDevices lines start

/-- The entries of the `--device` list. -/
def emitted (resolved : ResolvedGpu F) : List Text :=
  match resolved.deviceFlag with
  | none => []
  | some flag => flag.splitOn ','

/-- Nothing reported matches both ids; runtime ids match by name. -/
def Apart (backend : Text) (pool : List GpuDevice) (devices : List RuntimeDevice)
    (a b : Text) : Prop :=
  ("runtime:".toList.isPrefixOf a = true ∧ "runtime:".toList.isPrefixOf b = true) ∨
    ∀ device ∈ devices, Matches backend pool a device → ¬ Matches backend pool b device

/-- Every id has its own device, and the main device is an entry of the list. -/
structure Assigned (placement : GpuPlacement F) (backend : Text) (pool : List GpuDevice)
    (devices : List RuntimeDevice) (resolved : ResolvedGpu F) : Prop where
  listed : ∃ chosen, List.Forall₂ (ResolvesTo backend pool devices) placement.gpuIds chosen ∧
    emitted resolved = chosen.map (·.name)
  apart : ∀ (i j : Nat) (a b : Text), placement.gpuIds[i]? = some a → placement.gpuIds[j]? = some b → a ≠ b →
    Apart backend pool devices a b → (emitted resolved)[i]? ≠ (emitted resolved)[j]?
  main : ∀ id ∈ placement.mainGpu, ∃ device, ∃ index : Nat, ResolvesTo backend pool devices id device ∧
    resolved.mainGpuIndex = some index ∧
    if placement.gpuIds = [] then index = device.index
    else placement.gpuIds[index]? = some id ∧ (emitted resolved)[index]? = some device.name
  draft : ∀ id ∈ placement.draftGpuId, ∃ device, ResolvesTo backend pool devices id device ∧
    resolved.draftDevice = some device.name

theorem ResolvesTo.eq (h : ResolvesTo backend pool devices id device)
    {other : RuntimeDevice} (h' : ResolvesTo backend pool devices id other) : other = device :=
  h.only other h'.reported h'.fits

theorem ResolvesTo.ne_of_apart {other : RuntimeDevice} (hne : id ≠ id')
    (hapart : Apart backend pool devices id id') (h : ResolvesTo backend pool devices id device)
    (h' : ResolvesTo backend pool devices id' other) : device ≠ other := by
  rintro rfl
  rcases hapart with ⟨hruntime, hruntime'⟩ | hnone
  · have hid := h.fits
    have hid' := h'.fits
    rw [Matches, if_pos hruntime] at hid
    rw [Matches, if_pos hruntime'] at hid'
    exact hne (hid.trans hid'.symm)
  · exact hnone device h.reported h.fits h'.fits

theorem nodup_devicePool (h : (profile.gpus.map (·.stableId)).Nodup) :
    ((devicePool profile backend).map (·.stableId)).Nodup := by
  unfold devicePool
  split
  · exact h.sublist (List.filter_sublist.map _)
  · exact h

theorem resolveWith_eq_ok {δ : Type} {name : δ → Text} {index : δ → Nat}
    {resolveId : Text → Except Text δ} (h : resolveWith name index resolveId placement = .ok resolved) :
    (∃ chosen, List.Forall₂ (fun id device => resolveId id = .ok device) placement.gpuIds chosen ∧
      resolved.deviceFlag =
        if placement.gpuIds = [] then none else some (joinComma (chosen.map name))) ∧
    (∀ id ∈ placement.mainGpu, ∃ device place, resolveId id = .ok device ∧
      mainDeviceIndex placement id (index device) = .ok place ∧
      resolved.mainGpuIndex = some place) ∧
    ∀ id ∈ placement.draftGpuId, ∃ device, resolveId id = .ok device ∧
      resolved.draftDevice = some (name device) := by
  obtain ⟨flag, hflag, h⟩ := bind_eq_ok.mp h
  obtain ⟨mainIndex, hmain, h⟩ := bind_eq_ok.mp h
  obtain ⟨draft, hdraft, h⟩ := bind_eq_ok.mp h
  cases h
  refine ⟨?_, ?_, ?_⟩
  · rw [resolveDevices] at hflag
    by_cases hempty : placement.gpuIds = []
    · rw [if_pos (by simpa using hempty)] at hflag
      cases hflag
      exact ⟨[], hempty ▸ .nil, (if_pos hempty).symm⟩
    · rw [if_neg (by simpa using hempty)] at hflag
      obtain ⟨chosen, hchosen, hflag⟩ := bind_eq_ok.mp hflag
      cases hflag
      exact ⟨chosen, mapM_eq_ok.mp hchosen, (if_neg hempty).symm⟩
  · intro id hid
    rw [Option.mem_def.mp hid] at hmain
    obtain ⟨device, hdevice, hmain⟩ := bind_eq_ok.mp hmain
    obtain ⟨place, hplace, hmain⟩ := bind_eq_ok.mp hmain
    cases hmain
    exact ⟨device, place, hdevice, hplace, rfl⟩
  · intro id hid
    rw [Option.mem_def.mp hid] at hdraft
    obtain ⟨device, hdevice, hdraft⟩ := bind_eq_ok.mp hdraft
    cases hdraft
    exact ⟨device, hdevice, rfl⟩

theorem mainDeviceIndex_eq_ok {place n : Nat} (hids : placement.gpuIds ≠ [])
    (h : mainDeviceIndex placement id n = .ok place) : placement.gpuIds[place]? = some id := by
  rw [mainDeviceIndex, if_neg (by simpa using hids), orError_eq_ok,
    List.findIdx?_eq_some_iff_getElem] at h
  obtain ⟨hlt, heq, -⟩ := h
  rw [List.getElem?_eq_getElem hlt, Option.some.injEq]
  simpa using heq

theorem splitOn_joinComma {names : List Text} (hne : names ≠ [])
    (h : ∀ name ∈ names, ',' ∉ name) : (joinComma names).splitOn ',' = names :=
  List.splitOn_intercalate ',' h hne

theorem emitted_eq {chosen : List RuntimeDevice} (hcomma : ∀ device ∈ chosen, ',' ∉ device.name)
    (hempty : placement.gpuIds = [] → chosen = [])
    (hflag : resolved.deviceFlag = if placement.gpuIds = [] then none
      else some (joinComma (chosen.map (·.name))))
    (hfull : placement.gpuIds ≠ [] → chosen ≠ []) :
    emitted resolved = chosen.map (·.name) := by
  rw [emitted, hflag]
  by_cases h : placement.gpuIds = []
  · rw [if_pos h, hempty h]
    rfl
  · rw [if_neg h]
    refine splitOn_joinComma (by simpa using hfull h) fun name hname => ?_
    obtain ⟨device, hdevice, rfl⟩ := List.mem_map.mp hname
    exact hcomma device hdevice

theorem assigned_of_resolveWith {resolveId : Text → Except Text RuntimeDevice}
    (hresolve : ∀ id device, resolveId id = .ok device → ResolvesTo backend pool devices id device)
    (hcomma : ∀ device ∈ devices, ',' ∉ device.name) (hnames : (devices.map (·.name)).Nodup)
    (h : resolveWith (·.name) (·.index) resolveId placement = .ok resolved) :
    Assigned placement backend pool devices resolved := by
  obtain ⟨⟨chosen, hchosen, hflag⟩, hmain, hdraft⟩ := resolveWith_eq_ok h
  have hresolved : List.Forall₂ (ResolvesTo backend pool devices) placement.gpuIds chosen :=
    hchosen.imp fun id device => hresolve id device
  have hget : ∀ {i : Nat} {id : Text}, placement.gpuIds[i]? = some id →
      ∃ device, chosen[i]? = some device ∧ ResolvesTo backend pool devices id device := by
    intro i id hid
    obtain ⟨hlt, rfl⟩ := List.getElem?_eq_some_iff.mp hid
    have hlt' : i < chosen.length := hresolved.length_eq ▸ hlt
    exact ⟨chosen[i], List.getElem?_eq_getElem hlt', hresolved.get hlt hlt'⟩
  have hemitted : emitted resolved = chosen.map (·.name) := by
    refine emitted_eq ?_ ?_ hflag ?_
    · intro device hdevice
      obtain ⟨i, hlt, rfl⟩ := List.getElem_of_mem hdevice
      exact hcomma _ (hresolved.get (hresolved.length_eq ▸ hlt) hlt).reported
    · intro hempty
      rw [hempty] at hresolved
      cases hresolved
      rfl
    · rintro hne rfl
      exact hne (List.length_eq_zero_iff.mp hresolved.length_eq)
  constructor
  case listed => exact ⟨chosen, hresolved, hemitted⟩
  case apart =>
    intro i j a b ha hb hne hapart heq
    obtain ⟨device, hdevice, hresolves⟩ := hget ha
    obtain ⟨other, hother, hresolves'⟩ := hget hb
    rw [hemitted, List.getElem?_map, List.getElem?_map, hdevice, hother, Option.map_some,
      Option.map_some, Option.some.injEq] at heq
    refine hresolves.ne_of_apart hne hapart hresolves' ?_
    exact Lists.eq_of_key_eq hnames hresolves.reported hresolves'.reported heq
  case main =>
    intro id hid
    obtain ⟨device, place, hdevice, hplace, hindex⟩ := hmain id hid
    refine ⟨device, place, hresolve id device hdevice, hindex, ?_⟩
    split
    · rename_i hempty
      rw [mainDeviceIndex, if_pos (by simpa using hempty), Except.ok.injEq] at hplace
      exact hplace.symm
    · rename_i hne
      have hid := mainDeviceIndex_eq_ok hne hplace
      obtain ⟨other, hother, hresolves⟩ := hget hid
      refine ⟨hid, ?_⟩
      rw [hemitted, List.getElem?_map, hother, (hresolve id device hdevice).eq hresolves]
      rfl
  case draft =>
    intro id hid
    obtain ⟨device, hdevice, hname⟩ := hdraft id hid
    exact ⟨device, hresolve id device hdevice, hname⟩

theorem GpuPlacement.isEmpty_iff : placement.isEmpty = true ↔ placement.gpuIds = [] ∧
    placement.mainGpu = none ∧ placement.splitMode = .none ∧ placement.tensorSplit = [] ∧
    placement.draftGpuId = none := by
  simp [GpuPlacement.isEmpty, and_assoc]

theorem resolveWithRuntimeDevices_assigned (hids : (profile.gpus.map (·.stableId)).Nodup)
    (hnames : ((runtimeDevices backend lines).map (·.name)).Nodup)
    (h : resolveWithRuntimeDevices placement backend profile lines = .ok resolved) :
    Assigned placement backend (devicePool profile backend) (runtimeDevices backend lines)
      resolved := by
  unfold resolveWithRuntimeDevices at h
  by_cases hempty : placement.isEmpty = true
  · rw [if_pos hempty] at h
    cases h
    obtain ⟨hids, hmain, -, -, hdraft⟩ := GpuPlacement.isEmpty_iff.mp hempty
    refine ⟨⟨[], hids ▸ .nil, rfl⟩, ?_, ?_, ?_⟩
    · simp [hids]
    · simp [hmain]
    · simp [hdraft]
  · rw [if_neg hempty] at h
    cases hstart : devicePrefix backend with
    | none => simp [hstart, resolve, hempty] at h
    | some start =>
      rw [hstart] at h
      obtain ⟨_, -, h⟩ := bind_eq_ok.mp h
      rw [runtimeDevices, hstart] at hnames ⊢
      refine assigned_of_resolveWith ?_ (fun device hdevice => ?_) hnames h
      · intro id device hdevice
        exact (resolveId_eq_ok (nodup_devicePool hids) hnames).mp hdevice
      · exact comma_not_mem_name hstart hdevice

def GpuPlacement.selected (placement : GpuPlacement F) : List Text :=
  placement.gpuIds ++ placement.mainGpu.toList ++ placement.draftGpuId.toList

def modelName (text : Text) : Text :=
  searchable (text.take ((Search.find " (".toList text).getD text.length))

def namesModel (backend : Text) (lines : List Text) (gpu : GpuDevice) (device : RuntimeDevice) :
    Bool :=
  (devicePrefix backend).any fun start => lines.any fun line =>
    decide (parseRuntimeDevice start line = some device) &&
      (Text.splitOnce ':' (Text.trim line)).any fun parts =>
        modelName parts.2 == modelName gpu.name

def isCard (id : Text) (gpu : GpuDevice) : Bool :=
  gpu.stableId == id && !"runtime:".toList.isPrefixOf id

/-- Two ids have two devices, a card has a device of its own model, and the main device is the
entry its index points at. -/
structure OwnCards (placement : GpuPlacement F) (backend : Text) (profile : DeviceProfile)
    (lines : List Text) (resolved : ResolvedGpu F) : Prop where
  apart : ∀ (i j : Nat) (a b : Text), placement.gpuIds[i]? = some a →
    placement.gpuIds[j]? = some b → a ≠ b → (emitted resolved)[i]? ≠ (emitted resolved)[j]?
  model : ∀ start ∈ devicePrefix backend, ∀ id ∈ placement.selected,
    ∀ gpu ∈ devicePool profile backend, isCard id gpu = true → ∀ device,
      resolveId backend start (devicePool profile backend) (parseRuntimeDevices lines start) id =
        .ok device → namesModel backend lines gpu device = true
  main : ∀ id ∈ placement.mainGpu, ∃ start ∈ devicePrefix backend, ∃ device, ∃ index : Nat,
    resolveId backend start (devicePool profile backend) (parseRuntimeDevices lines start) id =
      .ok device ∧ resolved.mainGpuIndex = some index ∧
    if placement.gpuIds = [] then index = device.index
    else (emitted resolved)[index]? = some device.name

/-- No reported device matches two selected ids, and none that a selected card answers to is
reported as another model. -/
structure Unmistaken (placement : GpuPlacement F) (backend : Text) (profile : DeviceProfile)
    (lines : List Text) : Prop where
  apart : ∀ a ∈ placement.gpuIds, ∀ b ∈ placement.gpuIds, a ≠ b →
    ∀ device ∈ runtimeDevices backend lines, Matches backend (devicePool profile backend) a device →
      ¬ Matches backend (devicePool profile backend) b device
  model : ∀ id ∈ placement.selected, ∀ gpu ∈ devicePool profile backend, isCard id gpu = true →
    ∀ device ∈ runtimeDevices backend lines, answersTo gpu device = true →
      namesModel backend lines gpu device = true

instance : Decidable (Matches backend pool id device) :=
  inferInstanceAs (Decidable (if "runtime:".toList.isPrefixOf id then
      id = runtimeId backend device.name
    else ∃ gpu ∈ pool, gpu.stableId = id ∧ answersTo gpu device = true))

theorem matches_iff_answersTo {gpu : GpuDevice} (hpool : (pool.map (·.stableId)).Nodup)
    (hgpu : gpu ∈ pool) (hcard : isCard id gpu = true) :
    Matches backend pool id device ↔ answersTo gpu device = true := by
  obtain ⟨hid, hruntime⟩ := Bool.and_eq_true_iff.mp hcard
  rw [Matches, (Bool.not_eq_true' _).mp hruntime, if_neg Bool.false_ne_true]
  constructor
  · rintro ⟨other, hother, hother', hanswers⟩
    rwa [Lists.eq_of_key_eq hpool hother hgpu (hother'.trans (eq_of_beq hid).symm)] at hanswers
  · exact fun hanswers => ⟨gpu, hgpu, eq_of_beq hid, hanswers⟩

theorem Assigned.resolves {devices : List RuntimeDevice}
    (h : Assigned placement backend pool devices resolved) (hid : id ∈ placement.selected) :
    ∃ device, ResolvesTo backend pool devices id device := by
  simp only [GpuPlacement.selected, List.mem_append, Option.mem_toList] at hid
  rcases hid with (hid | hid) | hid
  · obtain ⟨chosen, hchosen, -⟩ := h.listed
    obtain ⟨i, hlt, rfl⟩ := List.getElem_of_mem hid
    exact ⟨_, hchosen.get hlt (hchosen.length_eq ▸ hlt)⟩
  · obtain ⟨device, -, hdevice, -⟩ := h.main id hid
    exact ⟨device, hdevice⟩
  · obtain ⟨device, hdevice, -⟩ := h.draft id hid
    exact ⟨device, hdevice⟩

theorem Assigned.not_matches {devices : List RuntimeDevice}
    (h : Assigned placement backend pool devices resolved) {i j : Nat} {a b : Text}
    (ha : placement.gpuIds[i]? = some a) (hb : placement.gpuIds[j]? = some b)
    (hapart : (emitted resolved)[i]? ≠ (emitted resolved)[j]?) (hdevice : device ∈ devices)
    (hmatches : Matches backend pool a device) : ¬ Matches backend pool b device := by
  intro hmatches'
  obtain ⟨chosen, hchosen, hemitted⟩ := h.listed
  have hget : ∀ {k : Nat} {c : Text}, placement.gpuIds[k]? = some c →
      Matches backend pool c device → chosen[k]? = some device := by
    intro k c hc hfits
    obtain ⟨hlt, rfl⟩ := List.getElem?_eq_some_iff.mp hc
    have hlt' : k < chosen.length := hchosen.length_eq ▸ hlt
    rw [(hchosen.get hlt hlt').only device hdevice hfits]
    exact List.getElem?_eq_getElem hlt'
  refine hapart ?_
  rw [hemitted, List.getElem?_map, List.getElem?_map, hget ha hmatches, hget hb hmatches']

theorem start_of_resolved (hid : id ∈ placement.selected)
    (h : resolveWithRuntimeDevices placement backend profile lines = .ok resolved) :
    ∃ start, devicePrefix backend = some start := by
  have hempty : placement.isEmpty ≠ true := by
    intro hempty
    obtain ⟨hids, hmain, -, -, hdraft⟩ := GpuPlacement.isEmpty_iff.mp hempty
    simp [GpuPlacement.selected, hids, hmain, hdraft] at hid
  cases hstart : devicePrefix backend with
  | none => simp [resolveWithRuntimeDevices, hstart, resolve, hempty] at h
  | some start => exact ⟨start, rfl⟩

/-- A resolved selection has the right cards exactly when no device can be taken for another:
the lenient match of names is the only way to a wrong one. -/
theorem resolveWithRuntimeDevices_ownCards_iff (hids : (profile.gpus.map (·.stableId)).Nodup)
    (hnames : ((runtimeDevices backend lines).map (·.name)).Nodup)
    (h : resolveWithRuntimeDevices placement backend profile lines = .ok resolved) :
    OwnCards placement backend profile lines resolved ↔
      Unmistaken placement backend profile lines := by
  have hassigned := resolveWithRuntimeDevices_assigned hids hnames h
  have hpool : ((devicePool profile backend).map (·.stableId)).Nodup := nodup_devicePool hids
  have hresolve : ∀ {start id device}, devicePrefix backend = some start →
      (resolveId backend start (devicePool profile backend) (parseRuntimeDevices lines start) id =
        .ok device ↔ ResolvesTo backend (devicePool profile backend)
          (runtimeDevices backend lines) id device) := by
    intro start id device hstart
    rw [runtimeDevices, hstart] at hnames ⊢
    exact resolveId_eq_ok hpool hnames
  constructor
  · intro hown
    constructor
    case apart =>
      intro a ha b hb hne device hdevice hmatches
      obtain ⟨i, hi⟩ := List.mem_iff_getElem?.mp ha
      obtain ⟨j, hj⟩ := List.mem_iff_getElem?.mp hb
      exact hassigned.not_matches hi hj (hown.apart i j a b hi hj hne) hdevice hmatches
    case model =>
      intro id hid gpu hgpu hcard device hdevice hanswers
      obtain ⟨start, hstart⟩ := start_of_resolved hid h
      obtain ⟨other, hother⟩ := hassigned.resolves hid
      obtain rfl := hother.only device hdevice ((matches_iff_answersTo hpool hgpu hcard).mpr hanswers)
      exact hown.model start hstart id hid gpu hgpu hcard device ((hresolve hstart).mpr hother)
  · intro hcond
    constructor
    case apart =>
      intro i j a b ha hb hne
      exact hassigned.apart i j a b ha hb hne (.inr (hcond.apart a (List.mem_of_getElem? ha) b
        (List.mem_of_getElem? hb) hne))
    case model =>
      intro start hstart id hid gpu hgpu hcard device hdevice
      have hresolves := (hresolve hstart).mp hdevice
      exact hcond.model id hid gpu hgpu hcard device hresolves.reported
        ((matches_iff_answersTo hpool hgpu hcard).mp hresolves.fits)
    case main =>
      intro id hid
      have hselected : id ∈ placement.selected := by
        simp [GpuPlacement.selected, Option.mem_def.mp hid]
      obtain ⟨start, hstart⟩ := start_of_resolved hselected h
      obtain ⟨device, index, hresolves, hindex, hplace⟩ := hassigned.main id hid
      refine ⟨start, hstart, device, index, (hresolve hstart).mpr hresolves, hindex, ?_⟩
      split
      · rename_i hempty
        rwa [if_pos hempty] at hplace
      · rename_i hne
        rw [if_neg hne] at hplace
        exact hplace.2

def nvidia (name stableId : String) : GpuDevice :=
  ⟨.nvidia, name.toList, some "10de:2786".toList, stableId.toList⟩

def selection (ids : List String) (main : Option String) : GpuPlacement Nat :=
  ⟨ids.map String.toList, main.map String.toList, .none, [], none⟩

def twoReported : List Text :=
  ["CUDA0: NVIDIA RTX B (24564 MiB)", "CUDA1: NVIDIA RTX A (24564 MiB)"].map String.toList

def oneCard : DeviceProfile := ⟨[nvidia "NVIDIA RTX A" "gpu-a"]⟩

def twoSelected : GpuPlacement Nat := selection ["gpu-a", "runtime:cuda:CUDA0"] (some "gpu-a")

/-- Two devices, one selected by its card and one by its name. -/
theorem resolveWithRuntimeDevices_ownCards_iff_two : ∃ resolved,
    resolveWithRuntimeDevices twoSelected "cuda".toList oneCard twoReported = .ok resolved ∧
      OwnCards twoSelected "cuda".toList oneCard twoReported resolved := by
  refine ⟨⟨some "CUDA1,CUDA0".toList, some 0, none, [], none⟩, rfl, ?_⟩
  refine (resolveWithRuntimeDevices_ownCards_iff (by decide) (by decide +kernel) rfl).mpr ⟨?_, ?_⟩
  · decide +kernel
  · decide +kernel

def twoCards : DeviceProfile :=
  ⟨[nvidia "NVIDIA GeForce RTX 4070" "gpu-a", nvidia "NVIDIA GeForce RTX 4070 Ti" "gpu-b"]⟩

def oneReported : List Text := ["CUDA0: NVIDIA GeForce RTX 4070 Ti (12282 MiB)".toList]

/-- Two cards are given the one device that is reported, under the name of one of them. -/
theorem two_cards_one_device :
    (twoCards.gpus.map (·.stableId)).Nodup ∧
    ((runtimeDevices "cuda".toList oneReported).map (·.name)).Nodup ∧
    ∃ resolved, resolveWithRuntimeDevices (selection ["gpu-a", "gpu-b"] (some "gpu-b"))
        "cuda".toList twoCards oneReported = .ok resolved ∧
      emitted resolved = ["CUDA0".toList, "CUDA0".toList] ∧
      ¬ OwnCards (selection ["gpu-a", "gpu-b"] (some "gpu-b")) "cuda".toList twoCards oneReported
        resolved := by
  have hemitted : emitted (F := Nat) ⟨some "CUDA0,CUDA0".toList, some 1, none, [], none⟩ =
      ["CUDA0".toList, "CUDA0".toList] := by decide +kernel
  refine ⟨by decide, by decide +kernel, ⟨some "CUDA0,CUDA0".toList, some 1, none, [], none⟩, rfl,
    hemitted, fun hown => ?_⟩
  refine hown.apart 0 1 "gpu-a".toList "gpu-b".toList rfl rfl (by decide) ?_
  rw [hemitted]
  rfl

end AioLM.Gpu
