import AioLM.ContextMemory
import AioLM.Decimals
import Mathlib.Data.List.DropRight
import Mathlib.Data.List.Infix

/-!
The advanced arguments of a server as the memory estimate reads them, against the
arguments the launch keeps of the same list.
-/

set_option autoImplicit false

namespace AioLM.ServerArguments

open Estimate Options

def MAX_SERVER_ARGS : Nat := 512

/-- Arguments a dedicated setting or the lifecycle of the server owns. -/
def APP_MANAGED_SERVER_ARGS : List String :=
  ["--model", "-m", "--host", "--port", "-p", "--api-key", "--api-key-file", "--no-api-key",
    "-mm", "--mmproj", "--mmproj-url", "-mmu", "--mmproj-auto", "--no-mmproj", "--no-mmproj-auto",
    "--n-gpu-layers", "--gpu-layers", "-ngl", "--ctx-size", "-c", "--batch-size", "-b",
    "--ubatch-size", "-ub", "--keep", "--cache-type-k", "-ctk", "--cache-type-v", "-ctv",
    "--flash-attn", "-fa", "--n-cpu-moe", "-ncmoe", "--threads", "-t", "--parallel", "-np",
    "--timeout", "-to", "--sleep-idle-seconds", "--lora", "--lora-scaled", "--spec-type",
    "--spec-draft-n-max", "--spec-draft-n-min", "--spec-draft-p-min", "--draft-p-min",
    "--spec-draft-p-split", "--draft-p-split", "--spec-draft-ngl", "--gpu-layers-draft",
    "--n-gpu-layers-draft", "-ngld", "--spec-draft-device", "-devd", "--device-draft",
    "--spec-draft-model", "-md", "--model-draft", "--reasoning", "-rea", "--reasoning-format",
    "--reasoning-effort", "--reasoning-budget", "--reasoning-budget-message",
    "--reasoning-preserve", "--no-reasoning-preserve", "--device", "-dev", "--main-gpu", "-mg",
    "--split-mode", "-sm", "--tensor-split", "-ts"]

/-- Arguments that change nothing the estimate measures. -/
def NEUTRAL_ARGS : List String :=
  ["-tb", "--threads-batch", "-C", "-Cr", "-Cb", "-Crb", "-n", "--predict", "--n-predict",
    "--swa-full", "-cms", "--checkpoint-min-step", "--context-shift", "--perf", "--show-timings",
    "-sp", "--special", "--warmup", "--spm-infill", "--samplers", "-s", "--seed", "--sampler-seq",
    "--sampling-seq", "--ignore-eos", "--temp", "--temperature", "--top-k", "--top-p", "--min-p",
    "--top-nsigma", "--top-n-sigma", "--typical", "--typical-p", "--repeat-last-n",
    "--repeat-penalty", "--presence-penalty", "--frequency-penalty", "--adaptive-target",
    "--adaptive-decay", "--dynatemp-range", "--dynatemp-exp", "-l", "--logit-bias", "--grammar",
    "--grammar-file", "-j", "--json-schema", "-jf", "--json-schema-file", "-bs",
    "--backend-sampling", "--attention", "-gan", "--grp-attn-n", "-gaw", "--grp-attn-w", "-dt",
    "--defrag-thold", "-cb", "--cont-batching", "-nocb", "--numa", "--check-tensors",
    "--lora-init-without-apply", "-a", "--alias", "--tags", "--reuse-port", "--path",
    "--api-prefix", "--tools", "--tools-runtime", "-ag", "--agent", "--ui", "--webui",
    "--threads-http", "--cache-prompt", "--cache-reuse", "--metrics", "--props", "--slots",
    "--slot-save-path", "--media-path", "--jinja", "--skip-chat-parsing", "--prefill-assistant",
    "-sps", "--slot-prompt-similarity", "--sse-ping-interval", "-v", "--verbose", "-lv",
    "--verbosity", "--offline", "-co", "--color", "-e", "--escape", "-fitt", "--fit-target",
    "-fitp", "--fit-print", "--models-dir", "--models-max", "--models-autoload", "-td", "-tbd",
    "-Cd", "-Crd", "-Cbd", "-Crbd", "--draft", "--draft-n", "--draft-max", "--draft-min",
    "--draft-n-min"]

def NEUTRAL_PREFIXES : List String :=
  ["--cpu-", "--prio", "--poll", "--dry-", "--xtc-", "--mirostat", "--rope-", "--yarn-", "--log-",
    "--cors-", "--ssl-", "--chat-template", "--ui-", "--webui-", "--mcp-", "--video-",
    "--spec-ngram-", "--spec-synth-", "--spec-draft-threads", "--spec-draft-cpu-",
    "--spec-draft-prio", "--spec-draft-poll", "--spec-draft-backend-sampling",
    "--spec-draft-n-max", "--spec-draft-n-min", "--spec-draft-p-", "--draft-p-"]

/-- Arguments that load other files or move memory in ways a header cannot predict. -/
def UNMODELED_ARGS : List String :=
  ["--cache-ram", "-cram", "--cache-idle-slots", "--ctx-checkpoints", "-ctxcp",
    "--swa-checkpoints", "--load-mode", "-lm", "--lazy-mode", "-lzm", "--mmap", "--mlock",
    "--direct-io", "-dio", "--no-host", "--repack", "-nr", "--image-min-tokens",
    "--image-max-tokens", "--mtmd-batch-max-tokens", "-ot", "--override-tensor", "-otd",
    "--override-tensor-draft", "--spec-draft-override-tensor", "--override-kv", "-mu",
    "--model-url", "-hf", "-hfr", "--hf-repo", "-hff", "--hf-file", "--spec-draft-hf", "-hfd",
    "-hfrd", "--hf-repo-draft", "--rpc", "--kv-unified-per-slot", "--embedding", "--embeddings",
    "--rerank", "--reranking", "--pooling", "--mtp", "--dflash", "--eagle3", "--spec-default",
    "--models-preset"]

/-- `matches!` and `contains` on a list of names. -/
def oneOf (names : List String) (name : Text) : Bool := names.any fun n => n.toList = name

def startsWithOneOf (prefixes : List String) (name : Text) : Bool :=
  prefixes.any fun p => p.toList.isPrefixOf name

def positive (name : Text) : Option Text :=
  (Text.stripPrefix "--no-".toList name).map fun rest => "--".toList ++ rest

def isNeutral (name : Text) : Bool :=
  neutral name || (positive name).any neutral
where
  neutral (name : Text) : Bool := oneOf NEUTRAL_ARGS name || startsWithOneOf NEUTRAL_PREFIXES name

def isUnmodeled (name : Text) : Bool :=
  oneOf UNMODELED_ARGS name || (positive name).any (oneOf UNMODELED_ARGS) ||
    ("-default".toList.isSuffixOf name || "-spec".toList.isSuffixOf name) &&
      startsWithOneOf ["--fim-", "--gpt-oss-", "--vision-", "--embd-"] name

/-- `text.parse::<f64>().is_ok()`: a number, or an infinity or NaN by name. -/
def parsesFloat (text : Text) : Bool :=
  (scanDecimal text).isSome ||
    ["inf", "infinity", "nan"].any fun name =>
      Text.eqIgnoreAsciiCase (takeSign text).2 name.toList

def isValue (word : Text) : Bool :=
  (Text.trim word).head? != some '-' || parsesFloat (Text.trim word)

inductive LazyMode where
  | off
  | auto
  | on

structure ServerArgs where
  cpuMoe : Bool := false
  nCpuFfn : Nat := 0
  kvOffload : Bool := true
  kvUnified : Option Bool := none
  fit : Bool := true
  fitCtx : Option Nat := none
  mmprojOffload : Bool := true
  opOffload : Bool := true
  lazyMode : LazyMode := .auto
  draftTypeK : Option KvType := none
  draftTypeV : Option KvType := none
  draftCpuMoe : Bool := false
  draftNCpuMoe : Nat := 0
  unmodeled : Bool := false
  unknown : Bool := false

def parseKvType (value : Text) : Option KvType :=
  (types.find? fun entry => entry.1.toList = Text.trim value).map (·.2)
where
  types : List (String × KvType) :=
    [("f32", .f32), ("f16", .f16), ("bf16", .bf16), ("q8_0", .q8_0), ("q5_0", .q5_0),
      ("q5_1", .q5_1), ("q4_0", .q4_0), ("q4_1", .q4_1), ("iq4_nl", .iq4Nl)]

def count (value : Option Text) : Option Nat := value.bind Text.parseUsize

def setLazyMode (value : Option Text) (args : ServerArgs) : ServerArgs :=
  if value = some "off".toList then { args with lazyMode := .off }
  else if value = some "auto".toList then { args with lazyMode := .auto }
  else if value = some "on".toList then { args with lazyMode := .on }
  else { args with unmodeled := true }

/-- Loading modes that keep the placement of the weights. -/
def setLoadMode (value : Option Text) (args : ServerArgs) : ServerArgs :=
  { args with unmodeled := args.unmodeled || !value.any (oneOf ["none", "auto", "mmap"]) }

/-- Only the input embeddings, which are on the CPU already, may be placed there. -/
def setOverrides (value : Option Text) (args : ServerArgs) : ServerArgs :=
  { args with unmodeled := args.unmodeled || value.all fun overrides =>
      (overrides.splitOn ',').any fun entry =>
        !oneOf ["per_layer_token_embd=CPU", "per_layer_token_embd.weight=CPU", "token_embd=CPU",
          "token_embd.weight=CPU"] (Text.trim entry) }

/-- An arm of the match on an argument's name; only some arms ask for a value. -/
inductive Arm where
  | plain (set : ServerArgs → ServerArgs)
  | valued (set : Option Text → ServerArgs → ServerArgs)

def Arm.isValued : Arm → Bool
  | plain _ => false
  | valued _ => true

def arms : List (List String × Arm) :=
  [(["-cmoe", "--cpu-moe"], .plain fun args => { args with cpuMoe := true }),
    (["-ncffn", "--n-cpu-ffn"], .valued fun value args =>
      { args with nCpuFfn := (count value).getD 0 }),
    (["-kvo", "--kv-offload"], .plain fun args => { args with kvOffload := true }),
    (["-nkvo", "--no-kv-offload"], .plain fun args => { args with kvOffload := false }),
    (["-kvu", "--kv-unified"], .plain fun args => { args with kvUnified := some true }),
    (["-no-kvu", "--no-kv-unified"], .plain fun args => { args with kvUnified := some false }),
    (["-fit", "--fit"], .valued fun value args => { args with fit := value ≠ some "off".toList }),
    (["-fitc", "--fit-ctx"], .valued fun value args => { args with fitCtx := count value }),
    (["--mmproj-offload"], .plain fun args => { args with mmprojOffload := true }),
    (["--no-mmproj-offload"], .plain fun args => { args with mmprojOffload := false }),
    (["-mmdev", "--mmproj-device"], .valued fun value args =>
      { args with mmprojOffload := value ≠ some "none".toList }),
    (["--op-offload"], .plain fun args => { args with opOffload := true }),
    (["--no-op-offload"], .plain fun args => { args with opOffload := false }),
    (["-lzm", "--lazy-mode"], .valued setLazyMode),
    (["-lm", "--load-mode"], .valued setLoadMode),
    (["-ot", "--override-tensor"], .valued setOverrides),
    (["--spec-draft-type-k", "-ctkd", "--cache-type-k-draft"], .valued fun value args =>
      { args with draftTypeK := value.bind parseKvType }),
    (["--spec-draft-type-v", "-ctvd", "--cache-type-v-draft"], .valued fun value args =>
      { args with draftTypeV := value.bind parseKvType }),
    (["--spec-draft-cpu-moe", "-cmoed", "--cpu-moe-draft"], .plain fun args =>
      { args with draftCpuMoe := true }),
    (["--spec-draft-n-cpu-moe", "--spec-draft-ncmoe", "-ncmoed", "--n-cpu-moe-draft"],
      .valued fun value args => { args with draftNCpuMoe := (count value).getD 0 })]

def classify (name : Text) (args : ServerArgs) : ServerArgs :=
  if isUnmodeled name then { args with unmodeled := true }
  else if !isNeutral name then { args with unknown := true }
  else args

def armOf (name : Text) : Arm :=
  match arms.find? fun arm => oneOf arm.1 name with
  | some arm => arm.2
  | none =>
    if oneOf APP_MANAGED_SERVER_ARGS name then .valued fun _ args => args
    else .valued fun _ args => classify name args

/-- An argument's name and the value written into it. -/
def nameOf (token : Text) : Text × Option Text :=
  match Text.splitOnce '=' token with
  | some (name, value) => (Text.trim name, some (Text.trim value))
  | none => (token, none)

def readWord (args : ServerArgs) (word : Text) (next : Option Text) : ServerArgs × Bool :=
  let (name, inline) := nameOf (Text.trim word)
  let next := (next.filter isValue).map Text.trim
  match armOf name with
  | .plain set => (set args, false)
  | .valued set =>
    match inline with
    | some value => (set (some value) args, false)
    | none => (set next args, next.isSome)

def readWords : ServerArgs → List Text → ServerArgs
  | args, [] => args
  | args, [word] => (readWord args word none).1
  | args, word :: next :: rest =>
    match readWord args word (some next) with
    | (args, true) => readWords args rest
    | (args, false) => readWords args (next :: rest)

def parseServerArgs (raw : List Text) : ServerArgs := readWords {} (raw.take MAX_SERVER_ARGS)

def launchName (argument : Text) : Text :=
  Text.trim (((Text.splitOnce '=' argument).map (·.1)).getD argument)

def isManaged (argument : Text) : Bool := oneOf APP_MANAGED_SERVER_ARGS (launchName argument)

/-- Managed flags that take no value. -/
def isSwitch (argument : Text) : Bool :=
  oneOf ["--no-api-key", "--mmproj-auto", "--no-mmproj", "--no-mmproj-auto",
    "--no-reasoning-preserve"] (launchName argument)

/-- `app_managed_option_consumes_next` -/
def consumesNext (argument next : Text) : Bool :=
  !argument.contains '=' && !isSwitch argument && isValue next

/-- The words `append_unmanaged_server_args` appends. -/
def unmanagedArgs : List Text → List Text
  | [] => []
  | [argument] => if isManaged argument then [] else [argument]
  | argument :: next :: rest =>
    if isManaged argument then
      if consumesNext argument next then unmanagedArgs rest else unmanagedArgs (next :: rest)
    else argument :: unmanagedArgs (next :: rest)

def appendUnmanagedServerArgs (output raw : List Text) : List Text := output ++ unmanagedArgs raw

theorem isWhitespace_equals : Text.isWhitespace '=' = false := by decide

theorem equals_mem_trim {argument : Text} : '=' ∈ Text.trim argument ↔ '=' ∈ argument := by
  rw [← List.count_pos_iff, ← List.count_pos_iff, Text.count_trim isWhitespace_equals]

theorem trim_append_equals (before after : Text) :
    Text.trim (before ++ '=' :: after) =
      Text.trimStart before ++ '=' :: Text.trimEndMatches Text.isWhitespace after := by
  have hstart : Text.trimStart (before ++ '=' :: after) = Text.trimStart before ++ '=' :: after := by
    rw [Text.trimStart, List.dropWhile_append,
      List.dropWhile_cons_of_neg (by simp [isWhitespace_equals])]
    split
    · rename_i hempty
      rw [List.isEmpty_iff] at hempty
      rw [Text.trimStart, hempty, List.nil_append]
    · rfl
  rw [Text.trim, hstart, Text.trimEndMatches_append isWhitespace_equals]

theorem not_mem_trimStart {c : Char} {t : Text} (h : c ∉ t) : c ∉ Text.trimStart t :=
  fun hmem => h ((List.dropWhile_suffix _).mem hmem)

theorem trim_trimStart (t : Text) : Text.trim (Text.trimStart t) = Text.trim t := by
  rw [Text.trim, Text.trim, Text.trimStart, Text.trimStart, List.dropWhile_idempotent]

theorem nameOf_inline {before : Text} (h : '=' ∉ before) (after : Text) :
    launchName (before ++ '=' :: after) = Text.trim before ∧
      ∃ value, nameOf (Text.trim (before ++ '=' :: after)) = (Text.trim before, some value) := by
  refine ⟨by simp [launchName, Text.splitOnce_append h], Text.trim (Text.trimEndMatches
    Text.isWhitespace after), ?_⟩
  rw [nameOf, trim_append_equals, Text.splitOnce_append (not_mem_trimStart h)]
  dsimp only
  rw [trim_trimStart]

theorem nameOf_bare {argument : Text} (h : '=' ∉ argument) :
    launchName argument = Text.trim argument ∧
      nameOf (Text.trim argument) = (Text.trim argument, none) := by
  have htrim : '=' ∉ Text.trim argument := fun hmem => h (equals_mem_trim.mp hmem)
  exact ⟨by simp [launchName, Text.splitOnce_eq_none h], by simp [nameOf, Text.splitOnce_eq_none htrim]⟩

theorem nameOf_trim (argument : Text) :
    (nameOf (Text.trim argument)).1 = launchName argument ∧
      ((nameOf (Text.trim argument)).2 = none ↔ '=' ∉ argument) := by
  by_cases hmem : '=' ∈ argument
  · obtain ⟨before, after, rfl, hbefore⟩ := List.eq_append_cons_of_mem hmem
    obtain ⟨hname, value, hvalue⟩ := nameOf_inline hbefore after
    rw [hvalue, hname]
    simp
  · obtain ⟨hname, hvalue⟩ := nameOf_bare hmem
    rw [hvalue, hname]
    simp [hmem]

theorem parsesFloat_equals {t : Text} (h : '=' ∈ t) : parsesFloat t = false := by
  have hsign : '=' ∈ (takeSign t).2 := by
    unfold takeSign
    split <;> simp_all
  have hname (name : String) (hfree : '=' ∉ name.toList.map Char.toLower) :
      Text.eqIgnoreAsciiCase (takeSign t).2 name.toList = false := by
    rw [Text.eqIgnoreAsciiCase, beq_eq_false_iff_ne]
    intro heq
    refine hfree (heq ▸ List.mem_map.mpr ⟨'=', hsign, by decide⟩)
  simp only [parsesFloat, scanDecimal_equals h, List.any_cons, List.any_nil, Option.isSome_none,
    hname "inf" (by decide), hname "infinity" (by decide), hname "nan" (by decide), Bool.or_self]

theorem mem_of_oneOf {names : List String} {name : Text} (h : oneOf names name) :
    ∃ n ∈ names, n.toList = name := by simpa [oneOf] using h

theorem oneOf_eq_contains (names : List String) (name : Text) :
    oneOf names name = (names.map String.toList).contains name := by
  rw [Bool.eq_iff_iff, List.contains_iff_mem, List.mem_map]
  simp [oneOf]

def flagNames (names : List String) : Bool :=
  names.all fun n => n.toList.head? = some '-' && !parsesFloat n.toList

theorem flagNames_spelled {names : List String} {texts : List Text}
    (h : Text.Spelled (names.map String.toList) texts)
    (hall : texts.all fun t => t.head? = some '-' && !parsesFloat t) : flagNames names := by
  rw [← h.eq, List.all_map] at hall
  exact hall

theorem flagNames_managed : flagNames APP_MANAGED_SERVER_ARGS :=
  flagNames_spelled (by repeat constructor) (by decide +kernel)

theorem flagNames_unmodeled : flagNames UNMODELED_ARGS :=
  flagNames_spelled (by repeat constructor) (by decide +kernel)

theorem flagNames_neutral : flagNames NEUTRAL_ARGS :=
  flagNames_spelled (by repeat constructor) (by decide +kernel)

theorem flagNames_arms : flagNames (arms.flatMap (·.1)) :=
  flagNames_spelled (by repeat constructor) (by decide +kernel)

theorem arms_not_managed : ∀ name ∈ arms.flatMap (·.1), name ∉ APP_MANAGED_SERVER_ARGS := by
  have hfree : ((arms.flatMap (·.1)).map String.toList).all fun t =>
      !(APP_MANAGED_SERVER_ARGS.map String.toList).contains t := by
    rw [@Text.Spelled.eq ((arms.flatMap (·.1)).map String.toList) _ (by repeat constructor),
      @Text.Spelled.eq (APP_MANAGED_SERVER_ARGS.map String.toList) _ (by repeat constructor)]
    decide +kernel
  intro name hname hmanaged
  have hcontains := List.all_eq_true.mp hfree _ (List.mem_map_of_mem hname)
  rw [List.contains_iff_mem.mpr (List.mem_map_of_mem hmanaged)] at hcontains
  cases hcontains

theorem head_of_trim {t : Text} {c : Char} (h : (Text.trim t).head? = some c) :
    (Text.trimStart t).head? = some c := by
  obtain ⟨cut, hcut, -⟩ := Text.trimEndMatches_split Text.isWhitespace (Text.trimStart t)
  rw [hcut, List.head?_append]
  exact Option.or_eq_some_iff.mpr (.inl h)

theorem name_of_isValue {word : Text} (h : isValue word) :
    (launchName word).head? ≠ some '-' ∨ parsesFloat (launchName word) := by
  by_cases hmem : '=' ∈ word
  · refine .inl fun hhead => ?_
    have hword : parsesFloat (Text.trim word) = false := parsesFloat_equals (equals_mem_trim.mpr hmem)
    obtain ⟨before, after, rfl, hbefore⟩ := List.eq_append_cons_of_mem hmem
    rw [(nameOf_inline hbefore after).1] at hhead
    have hdash : (Text.trim (before ++ '=' :: after)).head? = some '-' := by
      rw [trim_append_equals, List.head?_append, head_of_trim hhead]
      rfl
    simp [isValue, hdash, hword] at h
  · rw [(nameOf_bare hmem).1]
    simpa [isValue] using h

theorem not_oneOf_of_isValue {names : List String} (hnames : flagNames names) {word : Text}
    (h : isValue word) : oneOf names (launchName word) = false := by
  by_contra hone
  obtain ⟨n, hn, hname⟩ := mem_of_oneOf (by simpa using hone)
  have hflag : n.toList.head? = some '-' ∧ parsesFloat n.toList = false := by
    simpa using List.all_eq_true.mp hnames n hn
  rw [hname] at hflag
  rcases name_of_isValue h with hhead | hfloat
  · exact hhead hflag.1
  · rw [hflag.2] at hfloat
    cases hfloat

theorem parsesFloat_dashes (t : Text) : parsesFloat ('-' :: '-' :: t) = false := by
  simp [parsesFloat, scanDecimal, takeSign, scanFraction, Text.eqIgnoreAsciiCase]

theorem not_dashes_of_isValue {word : Text} (h : isValue word) (rest : Text) :
    launchName word ≠ '-' :: '-' :: rest := by
  intro hname
  rcases name_of_isValue h with hhead | hfloat
  · exact hhead (by rw [hname, List.head?_cons])
  · rw [hname, parsesFloat_dashes] at hfloat
    cases hfloat

theorem not_startsWithOneOf_of_isValue {prefixes : List String}
    (hprefixes : prefixes.all fun p => "--".toList.isPrefixOf p.toList) {word : Text}
    (h : isValue word) : startsWithOneOf prefixes (launchName word) = false := by
  by_contra hstarts
  rw [Bool.not_eq_false, startsWithOneOf, List.any_eq_true] at hstarts
  obtain ⟨p, hp, hpre⟩ := hstarts
  have hdashes := List.isPrefixOf_iff_prefix.mp (List.all_eq_true.mp hprefixes p hp)
  obtain ⟨rest, hrest⟩ := hdashes.trans (List.isPrefixOf_iff_prefix.mp hpre)
  exact not_dashes_of_isValue h rest hrest.symm

theorem positive_of_isValue {word : Text} (h : isValue word) : positive (launchName word) = none := by
  rw [positive, Option.map_eq_none_iff, Text.stripPrefix_eq_none]
  rintro ⟨rest, hrest⟩
  exact not_dashes_of_isValue h _ hrest.symm

theorem isManaged_of_mem {name : String} (hname : name ∈ APP_MANAGED_SERVER_ARGS)
    (hbare : launchName name.toList = name.toList) : isManaged name.toList := by
  rw [isManaged, hbare]
  exact List.any_eq_true.mpr ⟨name, hname, decide_eq_true rfl⟩

theorem not_isManaged_of_isValue {word : Text} (h : isValue word) : ¬ isManaged word := by
  rw [isManaged, not_oneOf_of_isValue flagNames_managed h]
  simp

theorem find_arms_eq_none {name : Text} (h : oneOf (arms.flatMap (·.1)) name = false) :
    arms.find? (fun arm => oneOf arm.1 name) = none := by
  rw [List.find?_eq_none]
  intro arm harm hone
  rw [oneOf, List.any_flatMap, List.any_eq_false] at h
  exact h arm harm hone

theorem armOf_managed {name : Text} (h : oneOf APP_MANAGED_SERVER_ARGS name) :
    armOf name = .valued fun _ args => args := by
  have hnone : oneOf (arms.flatMap (·.1)) name = false := by
    obtain ⟨n, hn, rfl⟩ := mem_of_oneOf h
    by_contra hone
    obtain ⟨m, hm, hsame⟩ := mem_of_oneOf (by simpa using hone)
    exact arms_not_managed m hm (String.toList_inj.mp hsame ▸ hn)
  rw [armOf, find_arms_eq_none hnone]
  exact if_pos h

theorem armOf_value {word : Text} (h : isValue word) :
    armOf (launchName word) = .valued fun _ args => { args with unknown := true } := by
  have hnone := find_arms_eq_none (not_oneOf_of_isValue flagNames_arms h)
  have hmanaged := not_isManaged_of_isValue h
  rw [isManaged] at hmanaged
  have hunmodeled : isUnmodeled (launchName word) = false := by
    rw [isUnmodeled, not_oneOf_of_isValue flagNames_unmodeled h, positive_of_isValue h,
      not_startsWithOneOf_of_isValue (by decide +kernel) h, Option.any_none, Bool.or_self,
      Bool.and_false, Bool.or_self]
  have hneutral : isNeutral (launchName word) = false := by
    rw [isNeutral, isNeutral.neutral, not_oneOf_of_isValue flagNames_neutral h,
      not_startsWithOneOf_of_isValue (by decide +kernel) h, positive_of_isValue h, Option.any_none,
      Bool.or_self, Bool.or_self]
  rw [armOf, hnone]
  simp only [if_neg hmanaged, classify, hunmodeled, hneutral]
  simp

def startsWithValue (words : List Text) : Bool := words.head?.any isValue

def wantsValue (argument : Text) : Bool :=
  !argument.contains '=' && !isManaged argument && (armOf (launchName argument)).isValued

theorem wantsValue_iff {argument : Text} :
    wantsValue argument ↔ '=' ∉ argument ∧ ¬ isManaged argument ∧
      (armOf (launchName argument)).isValued := by
  simp [wantsValue, and_assoc]

/-- No value stands after a managed switch, and none comes to stand after an argument
that had no value of its own when managed arguments are taken out. -/
structure Separate (raw : List Text) : Prop where
  switches : ∀ argument rest, argument :: rest <:+ raw → isManaged argument → isSwitch argument →
    '=' ∉ argument → ¬ startsWithValue rest
  unfinished : ∀ argument rest, argument :: rest <:+ raw → ¬ isValue argument →
    wantsValue argument → ¬ startsWithValue rest → ¬ startsWithValue (unmanagedArgs rest)

def separateAt : List Text → Bool
  | [] => true
  | argument :: rest =>
    !(isManaged argument && isSwitch argument && !argument.contains '=' && startsWithValue rest) &&
      !(!isValue argument && wantsValue argument && !startsWithValue rest &&
        startsWithValue (unmanagedArgs rest))

theorem separate_iff {raw : List Text} : Separate raw ↔ ∀ words ∈ raw.tails, separateAt words := by
  constructor
  · intro h words hwords
    obtain _ | ⟨argument, rest⟩ := words
    · rfl
    · have hsuffix := (List.mem_tails _ _).mp hwords
      have hswitches := h.switches argument rest hsuffix
      have hunfinished := h.unfinished argument rest hsuffix
      rw [separateAt, Bool.and_eq_true]
      constructor
      · by_contra hnot
        simp only [Bool.not_eq_true', Bool.not_eq_false, Bool.and_eq_true, List.contains_eq_mem,
          decide_eq_false_iff_not] at hnot
        obtain ⟨⟨⟨hmanaged, hswitch⟩, hbare⟩, hvalue⟩ := hnot
        exact hswitches hmanaged hswitch hbare hvalue
      · by_contra hnot
        simp only [Bool.not_eq_true', Bool.not_eq_false, Bool.and_eq_true] at hnot
        obtain ⟨⟨⟨hword, hwanted⟩, hvalue⟩, hleft⟩ := hnot
        exact hunfinished (by simp [hword]) hwanted (by simp [hvalue]) hleft
  · intro h
    constructor
    · intro argument rest hsuffix hmanaged hswitch hbare hvalue
      have hat := h _ ((List.mem_tails _ _).mpr hsuffix)
      simp [separateAt, hmanaged, hswitch, hbare, hvalue] at hat
    · intro argument rest hsuffix hword hwanted hvalue hleft
      have hat := h _ ((List.mem_tails _ _).mpr hsuffix)
      simp [separateAt, hword, hwanted, hvalue, hleft] at hat

instance (raw : List Text) : Decidable (Separate raw) := decidable_of_iff' _ separate_iff

theorem Separate.suffix {raw rest : List Text} (h : Separate raw) (hrest : rest <:+ raw) :
    Separate rest where
  switches argument later hlater := h.switches argument later (hlater.trans hrest)
  unfinished argument later hlater := h.unfinished argument later (hlater.trans hrest)

theorem readWord_managed (args : ServerArgs) {word : Text} (h : isManaged word)
    (next : Option Text) :
    readWord args word next = (args, !word.contains '=' && next.any isValue) := by
  obtain ⟨hname, hinline⟩ := nameOf_trim word
  have harm := armOf_managed h
  unfold readWord
  cases hvalue : (nameOf (Text.trim word)).2 with
  | none =>
    have hbare := hinline.mp hvalue
    simp only [hname, harm, hvalue, Prod.mk.injEq, true_and]
    cases next with
    | none => simp
    | some next => by_cases hnext : isValue next <;> simp [hnext, hbare]
  | some value =>
    have hmem : '=' ∈ word := by
      by_contra hbare
      rw [hinline.mpr hbare] at hvalue
      cases hvalue
    simp [hname, harm, hvalue, hmem]

theorem readWord_filter (args : ServerArgs) (word : Text) (next : Option Text) :
    readWord args word next = readWord args word (next.filter isValue) := by
  simp [readWord, Option.filter_filter]

theorem readWord_ignores (args : ServerArgs) {word : Text} (hkept : ¬ isManaged word)
    (h : ¬ wantsValue word) (next : Option Text) :
    readWord args word next = ((readWord args word none).1, false) := by
  obtain ⟨hname, hinline⟩ := nameOf_trim word
  unfold readWord
  cases harm : armOf (launchName word) with
  | plain set => simp [hname, harm]
  | valued set =>
    cases hvalue : (nameOf (Text.trim word)).2 with
    | none => exact absurd (wantsValue_iff.mpr ⟨hinline.mp hvalue, hkept, by rw [harm]; rfl⟩) h
    | some value => simp [hname, harm, hvalue]

theorem readWord_none (args : ServerArgs) (word : Text) : (readWord args word none).2 = false := by
  simp only [readWord]
  split
  · rfl
  · split <;> rfl

theorem readWord_blind (args : ServerArgs) {word : Text} (hkept : ¬ isManaged word)
    {words : List Text} (h : wantsValue word → ¬ startsWithValue words) :
    readWord args word words.head? = ((readWord args word none).1, false) := by
  by_cases hwanted : wantsValue word
  · have hnone : words.head?.filter isValue = none := by
      cases hhead : words.head? with
      | none => rfl
      | some next => simpa [startsWithValue, hhead] using h hwanted
    rw [readWord_filter, hnone]
    exact Prod.ext rfl (readWord_none args word)
  · exact readWord_ignores args hkept hwanted words.head?

theorem readWords_cons (args : ServerArgs) (word : Text) (rest : List Text) :
    readWords args (word :: rest) =
      readWords (readWord args word rest.head?).1
        (if (readWord args word rest.head?).2 then rest.tail else rest) := by
  cases rest with
  | nil => rcases hread : readWord args word none with ⟨read, _ | _⟩ <;> simp [readWords, hread]
  | cons next rest =>
    rcases hread : readWord args word (some next) with ⟨read, _ | _⟩ <;> simp [readWords, hread]

theorem readWords_value (args : ServerArgs) {word : Text} (h : isValue word) (rest : List Text) :
    readWords args (word :: rest) = readWords { args with unknown := true } rest := by
  have hread (args : ServerArgs) {word : Text} (h : isValue word) (next : Option Text) :
      (readWord args word next).1 = { args with unknown := true } := by
    simp only [readWord, (nameOf_trim word).1, armOf_value h]
    split <;> rfl
  induction rest generalizing args word with
  | nil => exact hread args h none
  | cons next rest ih =>
    rw [readWords_cons, hread args h, List.head?_cons, List.tail_cons]
    split
    case isTrue htaken =>
      have hnext : isValue next := by
        by_contra hnext
        rw [readWord_filter, Option.filter_some, if_neg (by simpa using hnext), readWord_none]
          at htaken
        cases htaken
      exact (ih { args with unknown := true } hnext).symm
    case isFalse => rfl

theorem unmanagedArgs_kept {word : Text} (h : ¬ isManaged word) (rest : List Text) :
    unmanagedArgs (word :: rest) = word :: unmanagedArgs rest := by
  cases rest <;> simp [unmanagedArgs, h]

/-- Taking managed arguments out changes nothing for the estimate, as long as every
value stays with the argument it stood behind. -/
theorem readWords_unmanaged (raw : List Text) : ∀ args, Separate raw →
    readWords args (unmanagedArgs raw) = readWords args raw := by
  induction hlength : raw.length using Nat.strong_induction_on generalizing raw with
  | h n ih =>
  intro args hseparate
  obtain _ | ⟨word, rest⟩ := raw
  · rfl
  have hrest : Separate rest := hseparate.suffix (List.suffix_cons word rest)
  have htail : Separate rest.tail := hrest.suffix (List.tail_suffix rest)
  have ihRest := ih rest.length (by simp [← hlength]) rest rfl
  have ihTail := ih rest.tail.length (by simp [← hlength]) rest.tail rfl
  by_cases hmanaged : isManaged word
  · rw [readWords_cons, readWord_managed args hmanaged]
    obtain _ | ⟨next, later⟩ := rest
    · simp [unmanagedArgs, hmanaged]
    have hconsumes : consumesNext word next = (!word.contains '=' && isValue next) := by
      by_cases hmem : '=' ∈ word
      · simp [consumesNext, hmem]
      · by_cases hs : isSwitch word
        · have hnext : isValue next = false := by
            simpa [startsWithValue] using
              hseparate.switches word _ List.suffix_rfl hmanaged hs hmem
          simp [consumesNext, hnext]
        · simp [consumesNext, hs]
    rw [unmanagedArgs, if_pos hmanaged, hconsumes, List.head?_cons, Option.any_some]
    split
    · exact ihTail args htail
    · exact ihRest args hrest
  rw [unmanagedArgs_kept hmanaged]
  by_cases hword : isValue word
  · rw [readWords_value args hword, readWords_value args hword]
    exact ihRest _ hrest
  rw [readWords_cons, readWords_cons args word rest]
  by_cases hvalue : startsWithValue rest
  · -- its own value follows, in both lists
    obtain _ | ⟨next, later⟩ := rest
    · cases hvalue
    have hnext := not_isManaged_of_isValue (by simpa [startsWithValue] using hvalue)
    have hsame := ihRest (readWord args word (some next)).1 hrest
    rw [unmanagedArgs_kept hnext] at hsame ⊢
    rw [List.head?_cons, List.head?_cons]
    split
    · exact ihTail _ htail
    · exact hsame
  · -- no value of its own, so none in either list
    rw [readWord_blind args hmanaged fun _ => hvalue, readWord_blind args hmanaged fun hwanted =>
      hseparate.unfinished word rest List.suffix_rfl hword hwanted hvalue]
    exact ihRest _ hrest

theorem unmanagedArgs_sublist (raw : List Text) : (unmanagedArgs raw).Sublist raw := by
  induction raw using unmanagedArgs.induct with
  | case1 => exact .refl _
  | case2 argument h => simp [unmanagedArgs, h]
  | case3 argument h => simp [unmanagedArgs, h]
  | case4 argument next rest hmanaged hnext ih =>
    rw [unmanagedArgs, if_pos hmanaged, if_pos hnext]
    exact (ih.cons next).cons argument
  | case5 argument next rest hmanaged hnext ih =>
    rw [unmanagedArgs, if_pos hmanaged, if_neg hnext]
    exact ih.cons argument
  | case6 argument next rest hmanaged ih =>
    rw [unmanagedArgs, if_neg hmanaged]
    exact ih.cons_cons argument

/-- No word that the launch keeps is taken as the value of an argument it drops. -/
def NoneSwallowed (raw : List Text) : Prop :=
  ∀ argument next rest, argument :: next :: rest <:+ raw → isManaged argument →
    (readWord {} argument (some next)).2 → consumesNext argument next

theorem noneSwallowed_iff {raw : List Text} :
    NoneSwallowed raw ↔ ∀ argument rest, argument :: rest <:+ raw → isManaged argument →
      isSwitch argument → '=' ∉ argument → ¬ startsWithValue rest := by
  constructor
  · intro h argument rest hsuffix hmanaged hswitch hbare hvalue
    obtain _ | ⟨next, rest⟩ := rest
    · cases hvalue
    have hnext : isValue next := by simpa [startsWithValue] using hvalue
    have htaken := h argument next rest hsuffix hmanaged (by
      rw [readWord_managed {} hmanaged]
      simp [hbare, hnext])
    simp [consumesNext, hswitch] at htaken
  · intro h argument next rest hsuffix hmanaged htaken
    rw [readWord_managed {} hmanaged] at htaken
    simp only [Option.any_some, Bool.and_eq_true] at htaken
    obtain ⟨hbare, hnext⟩ := htaken
    have hswitch : isSwitch argument = false := by
      by_contra hswitch
      refine h argument (next :: rest) hsuffix hmanaged (by simpa using hswitch)
        (by simpa using hbare) ?_
      simpa [startsWithValue] using hnext
    simp only [consumesNext, hbare, hswitch, hnext, Bool.not_false, Bool.and_self]

def Arm.KeepsUnknown : Arm → Prop
  | plain set => ∀ args, args.unknown = true → (set args).unknown = true
  | valued set => ∀ value args, args.unknown = true → (set value args).unknown = true

theorem keepsUnknown_lazyMode : (Arm.valued setLazyMode).KeepsUnknown := by
  intro value args h
  unfold setLazyMode
  split_ifs <;> exact h

theorem keepsUnknown_arms : ∀ arm ∈ arms, arm.2.KeepsUnknown := by
  simp only [arms, List.forall_mem_cons, List.not_mem_nil, false_implies, implies_true, and_true]
  refine ⟨?_, ?_, ?_, ?_, ?_, ?_, ?_, ?_, ?_, ?_, ?_, ?_, ?_, keepsUnknown_lazyMode, ?_, ?_, ?_, ?_,
    ?_, ?_⟩
  all_goals first | exact fun _ h => h | exact fun _ _ h => h

theorem keepsUnknown_armOf (name : Text) : (armOf name).KeepsUnknown := by
  unfold armOf
  split
  case h_1 arm hfind => exact keepsUnknown_arms arm (List.mem_of_find?_eq_some hfind)
  case h_2 =>
    split
    · exact fun _ _ h => h
    · intro _ args h
      unfold classify
      split_ifs
      · exact h
      · rfl
      · exact h

theorem unknown_readWord {args : ServerArgs} (h : args.unknown = true) (word : Text)
    (next : Option Text) : (readWord args word next).1.unknown = true := by
  have hkeeps := keepsUnknown_armOf (nameOf (Text.trim word)).1
  unfold readWord
  dsimp only
  split
  case h_1 set harm =>
    rw [harm] at hkeeps
    exact hkeeps args h
  case h_2 set harm =>
    rw [harm] at hkeeps
    split <;> exact hkeeps _ args h

theorem unknown_readWords {args : ServerArgs} (h : args.unknown = true) (words : List Text) :
    (readWords args words).unknown = true := by
  induction hlength : words.length using Nat.strong_induction_on generalizing words args with
  | h n ih =>
  obtain _ | ⟨word, rest⟩ := words
  · exact h
  rw [readWords_cons]
  have hword := unknown_readWord h word rest.head?
  split
  · exact ih rest.tail.length (by simp [← hlength]) hword rest.tail rfl
  · exact ih rest.length (by simp [← hlength]) hword rest rfl

theorem NoneSwallowed.suffix {raw rest : List Text} (h : NoneSwallowed raw)
    (hrest : rest <:+ raw) : NoneSwallowed rest :=
  fun argument next later hlater => h argument next later (hlater.trans hrest)

/-- A value that managed arguments leave over is an argument that is not understood. -/
theorem unknown_of_leftover {words : List Text} (hswallow : NoneSwallowed words)
    (hvalue : startsWithValue (unmanagedArgs words)) (args : ServerArgs) :
    (readWords args words).unknown = true := by
  induction hlength : words.length using Nat.strong_induction_on generalizing words args with
  | h n ih =>
  obtain _ | ⟨word, rest⟩ := words
  · cases hvalue
  have hrest : NoneSwallowed rest := hswallow.suffix (List.suffix_cons word rest)
  by_cases hmanaged : isManaged word
  · rw [readWords_cons, readWord_managed args hmanaged]
    obtain _ | ⟨next, later⟩ := rest
    · simp [unmanagedArgs, hmanaged, startsWithValue] at hvalue
    rw [unmanagedArgs, if_pos hmanaged] at hvalue
    rw [List.head?_cons, Option.any_some, List.tail_cons]
    split
    case isTrue htaken =>
      have hconsumes := hswallow word next later List.suffix_rfl hmanaged (by
        rw [readWord_managed {} hmanaged]
        exact htaken)
      rw [if_pos hconsumes] at hvalue
      exact ih later.length (by simp [← hlength])
        (hrest.suffix (List.suffix_cons next later)) hvalue args rfl
    case isFalse htaken =>
      have hconsumes : ¬ consumesNext word next := by
        intro hconsumes
        simp only [consumesNext, Bool.and_eq_true] at hconsumes
        exact htaken (by rw [hconsumes.1.1, hconsumes.2, Bool.and_self])
      rw [if_neg hconsumes] at hvalue
      exact ih (next :: later).length (by simp [← hlength]) hrest hvalue args rfl
  · rw [unmanagedArgs_kept hmanaged] at hvalue
    rw [readWords_value args (by simpa [startsWithValue] using hvalue)]
    exact unknown_readWords rfl rest

theorem readWords_reaches (args : ServerArgs) (before : List Text) {word : Text}
    (h : ¬ isValue word) (rest : List Text) :
    ∃ args', readWords args (before ++ word :: rest) = readWords args' (word :: rest) := by
  induction hlength : before.length using Nat.strong_induction_on generalizing before args with
  | h n ih =>
  obtain _ | ⟨first, later⟩ := before
  · exact ⟨args, rfl⟩
  rw [List.cons_append, readWords_cons]
  split
  case isTrue htaken =>
    obtain _ | ⟨next, later⟩ := later
    · -- the word itself is no value, so it is not taken
      rw [List.nil_append, List.head?_cons, readWord_filter, Option.filter_some,
        if_neg (by simpa using h), readWord_none] at htaken
      cases htaken
    · exact ih later.length (by simp [← hlength]) _ later rfl
  case isFalse => exact ih later.length (by simp [← hlength]) _ later rfl

/-- The estimate reads the arguments the launch passes when every value stays where it
stood, and then only, unless the launch passes arguments that are flagged as unknown. -/
theorem estimate_reads_launch {raw : List Text} (hlength : raw.length ≤ MAX_SERVER_ARGS) :
    (Separate raw → parseServerArgs raw = parseServerArgs (appendUnmanagedServerArgs [] raw) ∧
      NoneSwallowed raw) ∧
    (parseServerArgs raw = parseServerArgs (appendUnmanagedServerArgs [] raw) →
      NoneSwallowed raw →
      Separate raw ∨ (parseServerArgs (appendUnmanagedServerArgs [] raw)).unknown) := by
  have hkept := (unmanagedArgs_sublist raw).length_le.trans hlength
  rw [appendUnmanagedServerArgs, List.nil_append, parseServerArgs, parseServerArgs,
    List.take_of_length_le hlength, List.take_of_length_le hkept]
  refine ⟨fun h => ⟨(readWords_unmanaged raw {} h).symm, noneSwallowed_iff.mpr h.switches⟩, ?_⟩
  intro hsame hswallow
  rw [or_iff_not_imp_right]
  intro hknown
  refine ⟨noneSwallowed_iff.mp hswallow, ?_⟩
  intro argument rest hsuffix hword hwanted hvalue hleft
  obtain ⟨before, rfl⟩ := hsuffix
  obtain ⟨args, hreached⟩ := readWords_reaches {} before hword rest
  rw [← hsame, hreached, readWords_cons, readWord_blind args (wantsValue_iff.mp hwanted).2.1 fun _ => hvalue] at hknown
  refine hknown (unknown_of_leftover (hswallow.suffix ?_) hleft _)
  exact (List.suffix_cons argument rest).trans (List.suffix_append before _)

theorem estimate_reads_launch_offload :
    parseServerArgs (["--temp", "0.5", "--model", "m", "-nkvo"].map String.toList) =
      parseServerArgs (appendUnmanagedServerArgs []
        (["--temp", "0.5", "--model", "m", "-nkvo"].map String.toList)) := by
  exact ((estimate_reads_launch (by decide)).1 (by decide +kernel)).1

/-- The value behind a managed switch reaches the server but not the estimate. -/
theorem switch_swallows :
    parseServerArgs (["--no-mmproj", "extra"].map String.toList) ≠
      parseServerArgs (appendUnmanagedServerArgs []
        (["--no-mmproj", "extra"].map String.toList)) := by
  have hmanaged : isManaged "--no-mmproj".toList :=
    isManaged_of_mem (by repeat constructor) (by decide)
  have hvalue : isValue "extra".toList := by decide
  have hkeeps : consumesNext "--no-mmproj".toList "extra".toList = false := by decide
  have hread : parseServerArgs (["--no-mmproj", "extra"].map String.toList) = {} := by
    have hswitch : readWord {} "--no-mmproj".toList (some "extra".toList) = ({}, true) := by
      rw [readWord_managed {} hmanaged]
      simp only [Option.any_some, hvalue, Bool.and_true, Prod.mk.injEq, true_and]
      decide
    simp only [List.map_cons, List.map_nil, parseServerArgs, MAX_SERVER_ARGS, List.take_succ_cons,
      List.take_nil, readWords, hswitch]
  have hlaunch : appendUnmanagedServerArgs [] (["--no-mmproj", "extra"].map String.toList) =
      ["extra".toList] := by
    simp only [List.map_cons, List.map_nil, appendUnmanagedServerArgs, List.nil_append,
      unmanagedArgs, if_pos hmanaged, hkeeps, if_neg (not_isManaged_of_isValue hvalue)]
    rfl
  have hfound : parseServerArgs ["extra".toList] = { unknown := true } :=
    readWords_value {} hvalue []
  rw [hread, hlaunch, hfound]
  exact fun h => Bool.noConfusion (congrArg ServerArgs.unknown h)

end AioLM.ServerArguments
