import ModSplice.Proofs.FirstFault
import ModSplice.Proofs.Handover

/-!
# What a check foretells

A check reads, parses and splices as a transform does, but with the options of the configuration,
while a transform may be given others. The fault of a splice does not depend on the options, so the
two fail alike. A transform that fails has written nothing; one that succeeds has only its output
left to deliver, which a plain name in the directory cannot refuse.
-/
namespace ModSplice.Command

/-! ## Two runs side by side -/

/-- A splice fails under all options or under none, and with the same fault. -/
theorem spliceInput_together (options options' : Options) (filename source : String)
    (tree : Node) :
    (∃ failure, spliceInput options filename source tree = .error failure ∧
      spliceInput options' filename source tree = .error failure) ∨
    ∃ output output', spliceInput options filename source tree = .ok output ∧
      spliceInput options' filename source tree = .ok output' := by
  have hiff : ∀ fault, ({ options } : Splicer).splice source tree = .error fault ↔
      ({ options := options' } : Splicer).splice source tree = .error fault := by
    intro fault
    rw [Splicer.splice_eq_error_iff, Splicer.splice_eq_error_iff]
  cases h : ({ options } : Splicer).splice source tree with
  | error fault =>
    have h' := (hiff fault).mp h
    exact .inl ⟨.splice filename fault, by simp [spliceInput, h, Except.mapError],
      by simp [spliceInput, h', Except.mapError]⟩
  | ok output =>
    cases h' : ({ options := options' } : Splicer).splice source tree with
    | error fault =>
      rw [(hiff fault).mpr h'] at h
      cases h
    | ok output' =>
      exact .inr ⟨output, output', by simp [spliceInput, h, Except.mapError],
        by simp [spliceInput, h', Except.mapError]⟩

def Product.ofOutput (output? : Option String) (output : String) : Product :=
  match output? with
  | some path => .saved path output
  | none => .printed output

/-- A check and a transform of the same file come to nothing for the same reason, or both come to
something. -/
theorem perform_together (read : Reading) (report : Parsed.Report) (input : String)
    (config? output? exportsObject? loader? : Option String) :
    (∃ failure, perform read report ⟨.check, input, config?⟩ = .error failure ∧
      perform read report ⟨.transform output? none exportsObject? loader?, input, config?⟩ =
        .error failure) ∨
    ∃ output, perform read report ⟨.check, input, config?⟩ =
        .ok (.noted (Text.lines ("OK: " ++ input))) ∧
      perform read report ⟨.transform output? none exportsObject? loader?, input, config?⟩ =
        .ok (.ofOutput output? output) := by
  cases hconfig : loadConfig read config? with
  | error failure =>
    exact .inl ⟨failure, by simp [perform, hconfig, bind, Except.bind],
      by simp [perform, hconfig, bind, Except.bind]⟩
  | ok config =>
    cases hsource : readInput read input with
    | error failure =>
      exact .inl ⟨failure, by simp [perform, hconfig, hsource, bind, Except.bind],
        by simp [perform, hconfig, hsource, bind, Except.bind]⟩
    | ok source =>
      rw [perform_plain hconfig hsource]
      cases hprogram : parseInput config.forms input source report with
      | error failure =>
        exact .inl ⟨failure, by simp [perform, hconfig, hsource, hprogram, bind, Except.bind], rfl⟩
      | ok program =>
        let options : Options := {
          exportsObject := exportsObject?.getD config.options.exportsObject
          loader := loader?.getD config.options.loader }
        obtain ⟨failure, hcheck, htransform⟩ | ⟨noted, output, hcheck, htransform⟩ :=
          spliceInput_together config.options options input source program.tree
        · exact .inl ⟨failure,
            by simp [perform, hconfig, hsource, hprogram, hcheck, bind, Except.bind],
            by simp [transformTree, htransform, options, bind, Except.bind, Except.map]⟩
        · refine .inr ⟨output,
            by simp [perform, hconfig, hsource, hprogram, hcheck, bind, Except.bind], ?_⟩
          cases output? <;>
            simp [transformTree, htransform, options, Product.ofOutput, bind, Except.bind,
              Except.map]

/-! ## Command lines -/

/-- An option with its value joined to it, if there is a value. -/
def optionWords (name : String) (value? : Option String) : List String :=
  value?.toList.map fun value => "--" ++ name ++ "=" ++ value

/-- The name of the input, behind the mark that ends the options if it could be taken for one. -/
def inputWords (input : String) : List String :=
  if isValue input then [input] else ["--", input]

def checkWords (config? : Option String) (input : String) : List String :=
  optionWords "config" config? ++ "check" :: inputWords input

def transformWords (config? output? exportsObject? loader? : Option String) (input : String) :
    List String :=
  optionWords "config" config? ++ "transform" :: (optionWords "output" output? ++
    (optionWords "exports-object" exportsObject? ++
      (optionWords "loader" loader? ++ inputWords input)))

theorem ofString_option {forms : List OptionForm} (form : OptionForm) (value : String)
    (hform : forms.find? (·.name == form.name) = some form) (hname : '=' ∉ form.name.toList) :
    Word.ofString forms ("--" ++ form.name ++ "=" ++ value) = .option form (some value) := by
  have hword : ("--" ++ form.name ++ "=" ++ value).toList =
      '-' :: '-' :: (form.name.toList ++ '=' :: value.toList) := by simp
  have hlong : longWord forms (form.name.toList ++ '=' :: value.toList) =
      .option form (some value) := by
    have hbefore : ∀ c ∈ form.name.toList, (c != '=') = true := by
      intro c hc
      simp only [bne_iff_ne, ne_eq]
      rintro rfl
      exact hname hc
    have htake : (form.name.toList ++ '=' :: value.toList).takeWhile (· != '=') =
      form.name.toList := Legacy.takeWhile_eq_of_stop hbefore (by simp)
    have hdrop : (form.name.toList ++ '=' :: value.toList).dropWhile (· != '=') =
      '=' :: value.toList := Legacy.dropWhile_eq_of_stop hbefore (by simp)
    simp [longWord, htake, hdrop, hform]
  rw [Word.ofString, hword]
  cases hbody : form.name.toList ++ '=' :: value.toList with
  | nil => simp at hbody
  | cons c body => simpa [hbody] using hlong

/-- Whether a word is an operand does not depend on the options that are known. -/
theorem ofString_eq_operand_iff (forms : List OptionForm) (word : String) :
    Word.ofString forms word = .operand ↔ isValue word = true := by
  have hlong : ∀ forms body, longWord forms body ≠ .operand := by
    intro forms body
    rw [longWord]
    split <;> simp
  have hshort : ∀ forms letter rest, shortWord forms letter rest ≠ .operand := by
    intro forms letter rest
    rw [shortWord]
    split
    · split <;> simp
    · simp
  rw [isValue, beq_iff_eq, Word.ofString, Word.ofString]
  split <;> simp [hlong, hshort]

/-- An option that is new is taken with its value. -/
theorem ofWords?_option {forms : List OptionForm} (form : OptionForm) (given : Given)
    (value? : Option String) (rest : List String)
    (hform : forms.find? (·.name == form.name) = some form) (hname : '=' ∉ form.name.toList)
    (hnew : given.values.lookup form.name = none)
    (hvalue : form.mayBeEmpty = true ∨ value? ≠ some "") :
    Given.ofWords? forms given none (optionWords form.name value? ++ rest) =
      Given.ofWords? forms
        { given with values := value?.toList.map (form.name, ·) ++ given.values } none rest := by
  cases value? with
  | none => rfl
  | some value =>
    have hword := ofString_option form value hform hname
    have hset : given.set? form value =
        some { given with values := (form.name, value) :: given.values } := by
      rcases hvalue with hvalue | hvalue
      · simp [Given.set?, hnew, hvalue]
      · have hne : value.isEmpty = false := by simpa using hvalue
        simp [Given.set?, hnew, hne]
    simp [optionWords, Given.ofWords?, hword, hset]

theorem ofWords?_input (forms : List OptionForm) (given : Given) (input : String) :
    Given.ofWords? forms given none (inputWords input) = some (given.addOperand input) := by
  by_cases hvalue : isValue input = true
  · have hoperand := (ofString_eq_operand_iff forms input).mpr hvalue
    simp [inputWords, hvalue, Given.ofWords?, hoperand]
  · have hmark : Word.ofString forms "--" = .endOfOptions := rfl
    simp [inputWords, hvalue, Given.ofWords?, hmark]

theorem ofSubcommand?_check (config? : Option String) {input : String} (hinput : input ≠ "") :
    Request.ofSubcommand? config? "check" (inputWords input) = some ⟨.check, input, config?⟩ := by
  have hgiven := ofWords?_input [configForm] {} input
  simp [Request.ofSubcommand?, hgiven, Given.addOperand, hinput]

/-- The options of a transform, as they have been read when the input comes. -/
def transformGiven (output? exportsObject? loader? : Option String) : Given where
  values := loader?.toList.map ("loader", ·) ++ (exportsObject?.toList.map ("exports-object", ·) ++
    (output?.toList.map ("output", ·) ++ []))

theorem ofWords?_transform {output? : Option String} (exportsObject? loader? : Option String)
    (rest : List String) (houtput : output? ≠ some "") :
    Given.ofWords? transformForms {} none (optionWords "output" output? ++
      (optionWords "exports-object" exportsObject? ++ (optionWords "loader" loader? ++ rest))) =
      Given.ofWords? transformForms (transformGiven output? exportsObject? loader?) none rest := by
  have hfirst := ofWords?_option ⟨"output", some 'o', false⟩ {} output?
    (optionWords "exports-object" exportsObject? ++ (optionWords "loader" loader? ++ rest))
    (show transformForms.find? _ = _ from rfl) (by decide) rfl (.inr houtput)
  have hsecond := ofWords?_option ⟨"exports-object", none, true⟩
    ⟨output?.toList.map ("output", ·) ++ [], []⟩ exportsObject?
    (optionWords "loader" loader? ++ rest)
    (show transformForms.find? _ = _ from rfl) (by decide) (by cases output? <;> rfl) (.inl rfl)
  have hthird := ofWords?_option ⟨"loader", none, true⟩
    ⟨exportsObject?.toList.map ("exports-object", ·) ++
      (output?.toList.map ("output", ·) ++ []), []⟩
    loader? rest (show transformForms.find? _ = _ from rfl) (by decide)
    (by cases output? <;> cases exportsObject? <;> rfl) (.inl rfl)
  exact (hfirst.trans hsecond).trans hthird

theorem transformGiven_lookup (output? exportsObject? loader? : Option String) :
    let values := (transformGiven output? exportsObject? loader?).values
    values.lookup "config" = none ∧ values.lookup "tree" = none ∧
      values.lookup "output" = output? ∧ values.lookup "exports-object" = exportsObject? ∧
      values.lookup "loader" = loader? := by
  cases output? <;> cases exportsObject? <;> cases loader? <;> exact ⟨rfl, rfl, rfl, rfl, rfl⟩

theorem ofSubcommand?_transform (config? : Option String) {output? : Option String}
    (exportsObject? loader? : Option String) {input : String} (houtput : output? ≠ some "")
    (hinput : input ≠ "") :
    Request.ofSubcommand? config? "transform" (optionWords "output" output? ++
      (optionWords "exports-object" exportsObject? ++
        (optionWords "loader" loader? ++ inputWords input))) =
      some ⟨.transform output? none exportsObject? loader?, input, config?⟩ := by
  have hwords := ofWords?_transform exportsObject? loader? (inputWords input) houtput
  have hgiven := ofWords?_input transformForms (transformGiven output? exportsObject? loader?) input
  have hoperands : (transformGiven output? exportsObject? loader?).operands = [] := rfl
  obtain ⟨hconfig, htree, houtput', hexports, hloader⟩ :=
    transformGiven_lookup output? exportsObject? loader?
  simp [Request.ofSubcommand?, hwords, hgiven, Given.addOperand, hoperands, hinput, hconfig, htree,
    houtput', hexports, hloader]

/-- A configuration in front of a subcommand is handed on to it. -/
theorem ofWords?_config {config? : Option String} {subcommand : String} (rest : List String)
    (hconfig : config? ≠ some "") (h : isValue subcommand = true) :
    Request.ofWords? none false (optionWords "config" config? ++ subcommand :: rest) =
      Request.ofSubcommand? config? subcommand rest := by
  have hsubcommand : ∀ config?, Request.ofWords? config? false (subcommand :: rest) =
      Request.ofSubcommand? config? subcommand rest := by
    intro config?
    simp [Request.ofWords?, (ofString_eq_operand_iff [configForm] subcommand).mpr h]
  cases config? with
  | none => simpa [optionWords] using hsubcommand none
  | some config =>
    have hword : Word.ofString [configForm] ("--" ++ "config" ++ "=" ++ config) =
        .option configForm (some config) :=
      ofString_option configForm config rfl (by decide)
    have hnext := hsubcommand (some config)
    have hsome : config ≠ "" := fun h => hconfig (congrArg some h)
    change Request.ofWords? none false
      (("--" ++ "config" ++ "=" ++ config) :: subcommand :: rest) = _
    rw [Request.ofWords?, hword]
    simp [hnext, hsome]

section Requests

variable {config? output? : Option String} {input : String}

theorem ofWords?_check (hconfig : config? ≠ some "") (hinput : input ≠ "") :
    Request.ofWords? none false (checkWords config? input) = some ⟨.check, input, config?⟩ := by
  rw [checkWords, ofWords?_config _ hconfig (by decide), ofSubcommand?_check config? hinput]

theorem ofWords?_transformWords (exportsObject? loader? : Option String)
    (hconfig : config? ≠ some "") (houtput : output? ≠ some "") (hinput : input ≠ "") :
    Request.ofWords? none false (transformWords config? output? exportsObject? loader? input) =
      some ⟨.transform output? none exportsObject? loader?, input, config?⟩ := by
  rw [transformWords, ofWords?_config _ hconfig (by decide),
    ofSubcommand?_transform config? exportsObject? loader? houtput hinput]

end Requests

/-! ## Outcomes -/

/-- What the outcome of a check says about that of a transform: the same code, and of a failure the
same lines, with nothing printed and no file changed. -/
def Foretold (files : Files) (checked transformed : Outcome) : Prop :=
  transformed.code = checked.code ∧
    (checked.code ≠ 0 →
      transformed.stderr = checked.stderr ∧ transformed.stdout = "" ∧ transformed.files = files)

theorem Foretold.ofFailure (files : Files) (failure : Failure) :
    Foretold files (.ofFailure files failure) (.ofFailure files failure) :=
  ⟨rfl, fun _ => ⟨rfl, rfl, rfl⟩⟩

/-- An output to be delivered does not fail any more. -/
theorem ofProduct_ofOutput {files : Files} {output? : Option String}
    (houtput : ∀ name ∈ output?, files.Plain name) (output : String) :
    (Outcome.ofProduct files (.ofOutput output? output)).code = 0 := by
  cases output? with
  | none => rfl
  | some name =>
    have hwrite := Files.write_plain (houtput name rfl) output
    simp [Product.ofOutput, Outcome.ofProduct, hwrite]

theorem Foretold.ofOutput {files : Files} {output? : Option String}
    (houtput : ∀ name ∈ output?, files.Plain name) (lines : List String) (output : String) :
    Foretold files (.ofProduct files (.noted lines))
      (.ofProduct files (.ofOutput output? output)) :=
  ⟨ofProduct_ofOutput houtput output, fun hne => absurd rfl hne⟩

theorem run_foretold (usage : List String → Notice) (report : Parsed.Report) {files : Files}
    {config? output? exportsObject? loader? : Option String} {input : String}
    {checking transforming : List String} (houtput : ∀ name ∈ output?, files.Plain name)
    (hchecking : Request.ofWords? none false checking = some ⟨.check, input, config?⟩)
    (htransforming : Request.ofWords? none false transforming =
      some ⟨.transform output? none exportsObject? loader?, input, config?⟩) :
    Foretold files (run usage files report checking) (run usage files report transforming) := by
  obtain ⟨failure, hcheck, htransform⟩ | ⟨output, hcheck, htransform⟩ :=
    perform_together files.read report input config? output? exportsObject? loader?
  · simp only [run, hchecking, htransforming, hcheck, htransform]
    exact .ofFailure files failure
  · simp only [run, hchecking, htransforming, hcheck, htransform]
    exact .ofOutput houtput _ output

/-- A check foretells how a transform of the same file ends, whatever the files hold, whatever the
parser reports and whichever options the transform is given: as the two command lines are written
out, with the options in front of the input, and as any two that ask for the same. -/
theorem check_predicts_transform (usage : List String → Notice) (files : Files)
    (report : Parsed.Report) (output? exportsObject? loader? : Option String)
    (houtput : ∀ name ∈ output?, files.Plain name) :
    (∀ config? input, config? ≠ some "" → input ≠ "" →
      Foretold files (run usage files report (checkWords config? input))
        (run usage files report (transformWords config? output? exportsObject? loader? input))) ∧
    ∀ config? input checking transforming,
      Request.ofWords? none false checking = some ⟨.check, input, config?⟩ →
      Request.ofWords? none false transforming =
        some ⟨.transform output? none exportsObject? loader?, input, config?⟩ →
      Foretold files (run usage files report checking) (run usage files report transforming) := by
  refine ⟨fun config? input hconfig hinput => ?_, fun config? input checking transforming =>
    run_foretold usage report houtput⟩
  have hsome : output? ≠ some "" := fun h => (houtput "" h).nonempty rfl
  exact run_foretold usage report houtput (ofWords?_check hconfig hinput)
    (ofWords?_transformWords exportsObject? loader? hconfig hsome hinput)

/-- An import of the default beside a name is refused, by a check and by a transform with other
options, which does not write its output; so is a configuration that is not a text. The name of the
input begins with a hyphen. -/
theorem check_predicts_transform_mixed_import :
    let source := "import d, \x7b c \x7d from 'm'"
    let usage (_ : List String) : Notice := { code := 2 }
    let files : Files := ⟨[("-a", .ofText source), ("c", { text? := none })]⟩
    let report := Parsed.Report.script 1
      [.importing ⟨1, 25⟩ false [.default "d", .named "c" none false] ⟨22, 25⟩]
    let checked (words : List String) := run usage files report (words ++ ["check", "--", "-a"])
    let transformed (words : List String) := run usage files report (words ++
      ["transform", "--output=b", "--exports-object=", "--loader=load", "--", "-a"])
    files.Plain "b" ∧ ∀ words ∈ [[], ["--config=c"]], (transformed words).code = 1 ∧
      (transformed words).stderr = (checked words).stderr ∧ (transformed words).stdout = "" ∧
      (transformed words).files = files := by
  intro source usage files report checked transformed
  have hplain : files.Plain "b" :=
    ⟨⟨by decide, by decide, by decide, by decide, by decide⟩, by decide +kernel, by decide⟩
  have hread : files.read "-a" = .ok source :=
    Files.read_plain ⟨by decide, by decide, by decide, by decide, by decide⟩ (.ofText source) rfl
  have hunread : files.read "c" = .error .notText :=
    Files.read_plain ⟨by decide, by decide, by decide, by decide, by decide⟩ { text? := none } rfl
  have hwords : ∀ words ∈ [[], ["--config=c"]], ∃ config? ≠ some "",
      checkWords config? "-a" = words ++ ["check", "--", "-a"] ∧
      transformWords config? (some "b") (some "") (some "load") "-a" = words ++
        ["transform", "--output=b", "--exports-object=", "--loader=load", "--", "-a"] := by
    simp only [List.forall_mem_cons]
    exact ⟨⟨none, by decide, by decide +kernel, by decide +kernel⟩,
      ⟨some "c", by decide, by decide +kernel, by decide +kernel⟩, by simp⟩
  have hfails : ∀ words ∈ [[], ["--config=c"]], (checked words).code = 1 := by
    obtain ⟨program, hprogram, hfault⟩ : ∃ program, parseInput {} "-a" source report = .ok program ∧
        firstFault source 0 (program.tree.edits Rule.standard) =
          some (.unsupported (.importKind ⟨0, 24⟩)) := ⟨_, rfl, by decide +kernel⟩
    have hsplice := (Splicer.splice_eq_error_iff {} source program.tree _).mpr hfault
    have hshort : Request.ofWords? none false ["check", "--", "-a"] = some ⟨.check, "-a", none⟩ :=
      rfl
    have hlong : Request.ofWords? none false ["--config=c", "check", "--", "-a"] =
        some ⟨.check, "-a", some "c"⟩ := rfl
    simp [checked, run, hshort, hlong, perform, loadConfig, readInput, hread, hunread, hprogram,
      spliceInput, hsplice, Except.mapError, Outcome.ofFailure, bind, Except.bind]
  refine ⟨hplain, fun words hmem => ?_⟩
  obtain ⟨config?, hconfig, hcheck, htransform⟩ := hwords words hmem
  obtain ⟨hcode, hfailed⟩ := (check_predicts_transform usage files report (some "b") (some "")
    (some "load") (by simpa using hplain)).1 config? "-a" hconfig (by decide)
  rw [hcheck, htransform] at hcode hfailed
  have hcode' : (checked words).code = 1 := hfails words hmem
  exact ⟨hcode.trans hcode', hfailed (by rw [hcode']; decide)⟩

end ModSplice.Command
