import ArithCheck.Command
import ArithCheck.Proofs.Examination.Naming
import ArithCheck.Proofs.Examination.Tracing

/-!
# Entry points

An expression can be examined as a byte string, in a file, and by the command. All of these come to
the same end.

* `asksForLog`: the arguments that have to do with the log only;
* `parse_path`: a path among such arguments is what the command is asked to check;
* `recognizeFile_of_read`: recognizing a file is recognizing what is read, under any settings;
* `perform_ok`: what the command leaves behind for a file that can be read;
* `entry_points_agree`: the entry points agree.
-/

namespace ArithCheck.Command

open Examination

/-! ## Arguments -/

/-- Whether a flag has to do with the log only. -/
def Flag.isForLog (f : Flag) : Bool := f = .verbose || f = .trace

theorem Flag.not_contains_of_forLog {flags : List Flag} (h : ∀ f ∈ flags, f.isForLog = true)
    {f : Flag} (hf : f.isForLog = false) : flags.contains f = false := by
  rw [List.contains_eq_mem, decide_eq_false_iff_not]
  intro hmem
  rw [h f hmem] at hf
  cases hf

/-- The argument sets flags, all of which have to do with the log only. -/
inductive Argument.ForLog : Argument → Prop
  | flag {flag : Flag} {spelling : String} {value : Option String} {flags : List Flag} :
    flagsOf flag spelling value = .ok flags → (∀ f ∈ flags, f.isForLog = true) →
      ForLog (.flag flag spelling value)

/-- Whether an argument of the command sets flags that have to do with the log only, however they
are written. -/
def asksForLog (text : String) : Bool :=
  match classify text with
  | .ok (.flag flag spelling value) =>
    match flagsOf flag spelling value with
    | .ok flags => flags.all Flag.isForLog
    | .error _ => false
  | _ => false

example : ["-v", "--verbose", "--trace", "--tr", "-vv"].all asksForLog = true := by decide

variable {text : String}

theorem classify_of_asksForLog (h : asksForLog text = true) :
    ∃ a : Argument, classify text = .ok a ∧ a.ForLog := by
  unfold asksForLog at h
  split at h
  · rename_i flag spelling value hclassify
    split at h
    · rename_i flags hflags
      exact ⟨_, hclassify, .flag hflags (by simpa using h)⟩
    · cases h
  · cases h

theorem ne_separator (h : asksForLog text = true) : text ≠ "--" := by
  rintro rfl
  exact absurd h (by decide)

/-- Arguments for the log are flags, and do not matter to what follows them. -/
theorem classifyAll_append (texts : List String) (h : ∀ t ∈ texts, asksForLog t = true) :
    ∃ arguments : List Argument, (∀ a ∈ arguments, a.ForLog) ∧
      ∀ rest more, classifyAll rest = .ok more → classifyAll (texts ++ rest) =
        .ok (arguments ++ more) := by
  induction texts with
  | nil => exact ⟨[], List.forall_mem_nil _, fun rest more hmore => hmore⟩
  | cons text texts ih =>
    obtain ⟨htext, htexts⟩ := List.forall_mem_cons.mp h
    obtain ⟨a, hclassify, ha⟩ := classify_of_asksForLog htext
    obtain ⟨arguments, harguments, hrest⟩ := ih htexts
    refine ⟨a :: arguments, List.forall_mem_cons.mpr ⟨ha, harguments⟩, fun rest more hmore => ?_⟩
    rw [List.cons_append, classifyAll, if_neg (ne_separator htext), hclassify,
      hrest rest more hmore]
    rfl

/-- A path does not start with a minus sign. -/
theorem classifyAll_path {path : String} (h : path.toList.head? ≠ some '-') {rest : List String}
    {arguments : List Argument} (hrest : classifyAll rest = .ok arguments) :
    classifyAll (path :: rest) = .ok (.positional path :: arguments) := by
  have hseparator : path ≠ "--" := by
    rintro rfl
    exact h (by decide)
  have hclassify : classify path = .ok (.positional path) := by simp [classify, h]
  rw [classifyAll, if_neg hseparator, hclassify, hrest]
  rfl

namespace Progress

/-- Arguments for the log set flags for the log, and nothing else. -/
theorem consume_append {arguments : List Argument} (h : ∀ a ∈ arguments, a.ForLog) (p : Progress) :
    ∃ flags : List Flag, (∀ f ∈ flags, f.isForLog = true) ∧
      ∀ rest, p.consume (arguments ++ rest) =
        { p with flags := flags ++ p.flags }.consume rest := by
  induction arguments generalizing p with
  | nil => exact ⟨[], List.forall_mem_nil _, fun rest => rfl⟩
  | cons a arguments ih =>
    obtain ⟨ha, harguments⟩ := List.forall_mem_cons.mp h
    cases ha with
    | @flag flag spelling value flags hflags hforLog =>
      obtain ⟨more, hmore, hrest⟩ := ih harguments { p with flags := flags ++ p.flags }
      refine ⟨more ++ flags, List.forall_mem_append.mpr ⟨hmore, hforLog⟩, fun rest => ?_⟩
      have hhelp : flags.contains .help = false := Flag.not_contains_of_forLog hforLog rfl
      rw [List.append_assoc, ← hrest rest, List.cons_append, consume, hflags]
      show (if flags.contains .help = true then _ else _) = _
      rw [hhelp]
      rfl

/-- The first path is the one to be checked, if no separator follows it. -/
theorem consume_path {p : Progress} (hp : p.path = none) (path : String) {rest : List Argument}
    (h : ∀ a ∈ rest, a.ForLog) :
    p.consume (.positional path :: rest) = { p with path := some path }.consume rest := by
  obtain ⟨path', flags, extra⟩ := p
  subst hp
  cases rest with
  | nil => rfl
  | cons a rest =>
    obtain ⟨ha, -⟩ := List.forall_mem_cons.mp h
    cases ha with
    | flag => rfl

end Progress

/-- A path among arguments for the log is what the command is asked to check. -/
theorem parse_path {path : String} (hpath : path.toList.head? ≠ some '-')
    {before after : List String} (hflags : ∀ a ∈ before ++ after, asksForLog a = true) :
    ∃ options, parse (before ++ path :: after) = .ok (.check options) ∧ options.path = path ∧
      options.tokens = false := by
  obtain ⟨hbefore, hafter⟩ := List.forall_mem_append.mp hflags
  obtain ⟨first, hfirst, hclassify⟩ := classifyAll_append before hbefore
  obtain ⟨last, hlast, hclassify'⟩ := classifyAll_append after hafter
  have hend : classifyAll after = .ok last := by simpa using hclassify' [] [] rfl
  have harguments : classifyAll (before ++ path :: after) =
      .ok (first ++ .positional path :: last) :=
    hclassify _ _ (classifyAll_path hpath hend)
  obtain ⟨flags, hforLog, hconsume⟩ := Progress.consume_append hfirst ⟨none, [], []⟩
  obtain ⟨flags', hforLog', hconsume'⟩ := Progress.consume_append hlast ⟨some path, flags, []⟩
  have htokens : (flags' ++ flags).contains .tokens = false := by
    apply Flag.not_contains_of_forLog _ rfl
    exact List.forall_mem_append.mpr ⟨hforLog', hforLog⟩
  have hfinish : Progress.consume ⟨some path, flags, []⟩ last =
      Progress.finish ⟨some path, flags' ++ flags, []⟩ := by
    simpa [Progress.consume] using hconsume' []
  have hparse : parse (before ++ path :: after) =
      Progress.finish ⟨some path, flags' ++ flags, []⟩ := by
    rw [parse, harguments]
    show Progress.consume _ _ = _
    rw [hconsume, Progress.consume_path rfl path hlast, List.append_nil, hfinish]
  exact ⟨_, hparse, rfl, htokens⟩

/-! ## Runs -/

variable (limit : Nat) (settings settings' : Settings)

/-- The verdict on a byte string is the same under all settings. -/
theorem recognize_settings (bytes : List UInt8) (file : Option String) :
    recognize limit settings bytes file = recognize limit settings' bytes file := by
  have hmasked := (ofStream_masked limit settings (.ofBytes bytes) file).1
  have hmasked' := (ofStream_masked limit settings' (.ofBytes bytes) file).1
  exact hmasked.trans hmasked'.symm

/-- What the command leaves behind after a verdict, or after a fault in its place. -/
def Outcome.ofVerdict (log : Log) : Except Fault Bool → Outcome
  | .ok accepted => ⟨verdictText accepted, log, none⟩
  | .error fault => ⟨"", log, some (.fault fault)⟩

theorem Outcome.ofVerdict_log (log log' : Log) (verdict : Except Fault Bool) :
    { Outcome.ofVerdict log verdict with log := log' } = Outcome.ofVerdict log' verdict := by
  cases verdict <;> rfl

theorem judge_eq (bytes : List UInt8) (file : String) :
    judge limit settings (.ofBytes bytes) file =
      .ofVerdict (ofBytes limit settings bytes (some file)).log
        (recognize limit settings' bytes (some file)) := by
  rw [recognize_settings limit settings' settings, recognize, judge, ofBytes]
  generalize ofStream _ _ _ _ = e
  cases e.verdict <;> rfl

variable {read : String → Except Fault (List UInt8)} {arguments : List String} {options : Options}

/-- Recognizing a file is recognizing its contents under its name. -/
theorem recognizeFile_of_read {name : String} {bytes : List UInt8}
    (hread : read name = .ok bytes) : recognizeFile limit settings read name =
      recognize limit settings' bytes (some name) := by
  have hfile : recognizeFile limit settings read name =
      recognize limit settings bytes (some name) := by
    rw [recognizeFile, hread]
    rfl
  exact hfile.trans (recognize_settings limit settings settings' bytes (some name))

/-- The command leaves behind the verdict on what it reads, and the settings as they were. -/
theorem perform_ok (htokens : options.tokens = false) (bytes : List UInt8) :
    ∃ log, perform limit options (.ok bytes) settings =
      .ok (.ofVerdict log (recognize limit settings' bytes (some options.file))) settings := by
  have hperform : perform limit options (.ok bytes) settings =
      let judged := judge limit (.traceAll options.trace) (.ofBytes bytes) options.file
      .ok { judged with log := if options.showsLog then judged.log else #[] } settings := by
    obtain ⟨path, tokens, trace, verbose⟩ := options
    obtain rfl : tokens = false := htokens
    rfl
  rw [hperform, judge_eq limit _ settings']
  exact ⟨_, congrArg (EStateM.Result.ok · settings) (Outcome.ofVerdict_log _ _ _)⟩

/-- A file that cannot be read is complained about. -/
theorem perform_unreadable (path : String) (failure : ReadFailure) :
    perform limit options (.error (.unreadable path failure)) settings =
      .ok ⟨"", #[], some (.fault (.unreadable path failure))⟩ settings :=
  rfl

theorem run_of_parse (hparse : parse arguments = .ok (.check options)) :
    run limit read arguments = perform limit options (read options.file) := by
  rw [run, hparse]

/-- The complaint about a fault of the input is its message. -/
theorem errors_ofVerdict {fault : Fault} {file : Option String} (h : fault.OfInput file)
    (log : Log) : (Outcome.ofVerdict log (.error fault)).errors =
      (Outcome.ofVerdict log (.error fault)).logText ++ "error: " ++ fault.message ++ "\n" := by
  have htext : (Complaint.fault fault).text = s!"error: {fault.message}\n" := by
    rcases h with ⟨cause, place, rfl⟩ | ⟨place, rfl⟩ <;> rfl
  show _ ++ (Complaint.fault fault).text = _
  rw [htext]
  simp [String.append_assoc, toString]

/-- The outcome of a verdict on a named file tells what becomes of its contents without a name. -/
theorem ofVerdict_recognize (bytes : List UInt8) (file : String) (log : Log) :
    let o := Outcome.ofVerdict log (recognize limit settings bytes (some file))
    let verdict := recognize limit settings bytes none
    (verdict = .ok true ↔ o.code = 0 ∧ o.output = "accept\n") ∧
    (verdict = .ok false ↔ o.code = 0 ∧ o.output = "reject\n") ∧
    ((∃ cause place, verdict = .error (.lexical cause place none)) ↔ o.code = 1) ∧
    ((∃ place, verdict = .error (.nesting place none)) ↔ o.code = 3) := by
  intro o verdict
  have ho : o = .ofVerdict log (verdict.mapError (Fault.named (some file))) := by
    rw [← recognize_named]
  cases h : verdict with
  | ok accepted =>
    have hverdict : o = ⟨verdictText accepted, log, none⟩ := by rw [ho, h]; rfl
    rw [hverdict]
    cases accepted <;> simp [Outcome.code, verdictText]
  | error fault =>
    have hfault : o = ⟨"", log, some (.fault (fault.named (some file)))⟩ := by rw [ho, h]; rfl
    rcases ofInput_of_recognize h with ⟨cause, place, rfl⟩ | ⟨place, rfl⟩
    · have hcode : o.code = 1 := by rw [hfault]; rfl
      simp [hcode]
    · have hcode : o.code = 3 := by rw [hfault]; rfl
      simp [hcode]

/-- The entry points agree, whatever the limit is. Whatever can be read, recognizing a file is
recognizing its contents under its name, and the settings under which either is done do not matter
to that. If the command is given a path among arguments that set flags for the log, then it reads
what the normalized path leads to, and it prints `accept` or `reject` and exits with the code 0 if
and only if the contents are recognized with that verdict. It exits with the code 1 if and only if
there is a lexical fault, and with the code 3 if and only if the contents nest too deeply; then it
prints nothing and ends its complaints with the message of that fault, with the name of the file put
in. A file that cannot be read makes the code 2. In the end the settings are what they were
before. -/
theorem entry_points_agree (read : String → Except Fault (List UInt8)) (path : String)
    (before after : List String) (hpath : path.toList.head? ≠ some '-')
    (hflags : ∀ a ∈ before ++ after, asksForLog a = true) :
    let file := Path.normalize path
    let ran := run limit read (before ++ path :: after) settings
    let recognized := recognize limit settings'
    (∀ name bytes, read name = .ok bytes →
      recognizeFile limit settings read name = recognized bytes (some name)) ∧
    (∀ bytes, read file = .ok bytes → ∃ o, ran = .ok o settings ∧
      (recognized bytes none = .ok true ↔ o.code = 0 ∧ o.output = "accept\n") ∧
      (recognized bytes none = .ok false ↔ o.code = 0 ∧ o.output = "reject\n") ∧
      ((∃ cause place, recognized bytes none = .error (.lexical cause place none)) ↔ o.code = 1) ∧
      ((∃ place, recognized bytes none = .error (.nesting place none)) ↔ o.code = 3) ∧
      ∀ fault, recognized bytes none = .error fault →
        recognized bytes (some file) = .error (fault.named (some file)) ∧ o.output = "" ∧
          o.errors = o.logText ++ "error: " ++ (fault.named (some file)).message ++ "\n") ∧
    (∀ name failure, read file = .error (.unreadable name failure) →
      ∃ o, ran = .ok o settings ∧ o.code = 2 ∧ o.output = "") := by
  intro file ran recognized
  obtain ⟨options, hparse, hoptions, htokens⟩ := parse_path hpath hflags
  have hfile : options.file = file := congrArg Path.normalize hoptions
  have hran : ran = perform limit options (read file) settings := by
    rw [← hfile]
    exact congrFun (run_of_parse limit hparse) settings
  refine ⟨fun name bytes hread => ?_, fun bytes hread => ?_, fun name failure hread => ?_⟩
  · exact recognizeFile_of_read limit settings settings' hread
  · obtain ⟨log, hperform⟩ := perform_ok limit settings settings' htokens bytes
    rw [hfile] at hperform
    obtain ⟨haccept, hreject, hlexical, hnesting⟩ :=
      ofVerdict_recognize limit settings' bytes file log
    refine ⟨_, by rw [hran, hread, hperform], haccept, hreject, hlexical, hnesting, ?_⟩
    intro fault hfault
    have hnamed : recognize limit settings' bytes (some file) = .error (fault.named (some file)) :=
      (recognize_named limit settings' bytes (some file)).trans (congrArg _ hfault)
    rw [hnamed]
    exact ⟨hnamed, rfl, errors_ofVerdict (ofInput_of_recognize hnamed) log⟩
  · rw [hran, hread]
    exact ⟨_, perform_unreadable limit settings name failure, rfl, rfl⟩

/-- A file that holds an `x` is accepted, also while everything is traced. -/
theorem entry_points_agree_variable :
    let read (name : String) : Except Fault (List UInt8) :=
      if name = "f" then .ok [0x78] else .error (.unreadable name .notFound)
    ∃ o, run Recognition.nestingLimit read ["-v", "./f", "--trace"] .default = .ok o .default ∧
      o.code = 0 ∧ o.output = "accept\n" := by
  intro read
  have hread : read (Path.normalize "./f") = .ok [0x78] := by decide
  have hagree := entry_points_agree Recognition.nestingLimit .default .default read "./f" ["-v"]
    ["--trace"] (by decide) (by decide)
  obtain ⟨o, hrun, haccept, -⟩ := hagree.2.1 _ hread
  exact ⟨o, hrun, haccept.mp rfl⟩

end ArithCheck.Command
