import Cal.Command.Basic
import Cal.Proofs.Lexer.Tokenise
import Cal.Proofs.Parser.OnDemand
import Cal.Proofs.Report.Written

/-!
# The ways to run the command

A program comes from standard input or from a file, and its outcome is reported in words or in JSON. What
the command says about some bytes does not depend on that more than it has to.

* `respond_of_invalid`, `respond_of_tooLarge`, `respond_of_admits`: the whole output, for bytes that are no
  text, for those that are too many, and for those that are parsed.
* `runs_agree`: what a run says about the bytes, and what any two runs have in common.
-/

namespace Cal.Command

/-- The bytes are a text, and few enough to be parsed. -/
structure Admits (bytes : ByteArray) (text : String) : Prop where
  encodes : text.toUTF8 = bytes
  size_le : bytes.size ≤ sizeLimit

/-- What a run of the command on some bytes prints, and how it exits. -/
structure Options.Tells (options : Options) (bytes : ByteArray) (output : Output) : Prop where
  /-- The exit code is zero for a program that was accepted, and for no other. -/
  code_eq_zero : output.code = 0 ↔ ∃ text, Admits bytes text ∧ parseText text = .ok ()
  /-- Everything else exits with one. -/
  code_eq_one : output.code ≠ 0 → output.code = 1
  /-- There is something on standard error just if nothing was parsed. -/
  stderr_eq_empty : output.stderr = "" ↔ ∃ text, Admits bytes text
  /-- Bytes that are no text are reported as such, however many they are. -/
  invalid : (∀ text : String, text.toUTF8 ≠ bytes) →
    output.stderr = options.readError (.unreadable "stream did not contain valid UTF-8")
  /-- A text of too many bytes is reported with their number. -/
  tooLong : ∀ text : String, text.toUTF8 = bytes → sizeLimit < bytes.size →
    output.stderr = tooLarge bytes.size
  /-- If nothing was parsed, no outcome is printed. -/
  silent : (∀ text, ¬ Admits bytes text) → output.stdout = options.banner
  /-- Only in words, and from standard input, there is a banner. -/
  banner : options.banner ≠ "" →
    options = ⟨none, .pretty⟩ ∧ options.banner = line "Reading from standard input..."
  /-- In JSON the outcome is one line, and there is no other. -/
  json : ∀ text, Admits bytes text → options.format = .json →
    ∃ report, '\n' ∉ report.toList ∧ report = (Outcome.report (parseText text)).render ∧
      output.stdout = line report
  /-- In words a program that was accepted is reported so. -/
  accepted : ∀ text, Admits bytes text → options.format = .pretty → parseText text = .ok () →
    output.stdout = options.banner ++ line "Parsed successfully."
  /-- In words a program that was refused is reported with the reason. -/
  refused : ∀ text error, Admits bytes text → options.format = .pretty → parseText text = .error error →
    output.stdout = options.banner ++ (line error.message ++ line "Encountered errors during parse.")

/-- What two runs of the command on the same bytes have in common. -/
structure Agree (options other : Options) (output again : Output) : Prop where
  code : again.code = output.code
  stderr : other.file? = options.file? → again.stderr = output.stderr
  /-- In one format they print the same, but for the banner in words from standard input. -/
  stdout : other.format = options.format →
    ∃ told, output.stdout = options.banner ++ told ∧ again.stdout = other.banner ++ told

variable {options other : Options} {bytes : ByteArray} {text : String}

theorem fromUTF8?_eq_some : String.fromUTF8? bytes = some text ↔ text.toUTF8 = bytes := by
  constructor
  · intro h
    unfold String.fromUTF8? at h
    split at h <;> cases h
    rfl
  · rintro rfl
    rw [String.fromUTF8?, String.toUTF8_eq_toByteArray, dif_pos text.isValidUTF8]
    rfl

theorem toUTF8_unique {again : String} (h : text.toUTF8 = bytes) (hagain : again.toUTF8 = bytes) :
    again = text := by
  rw [← fromUTF8?_eq_some] at h hagain
  rw [h] at hagain
  exact (Option.some.inj hagain).symm

theorem line_ne_empty (text : String) : line text ≠ "" := by
  intro h
  have hlist := congrArg String.toList h
  simp [line] at hlist

theorem readError_ne_empty (options : Options) (failure : ReadFailure) : options.readError failure ≠ "" := by
  unfold Options.readError
  split <;> exact line_ne_empty _

/-- **Bytes that are no text are refused**, however many they are. -/
theorem respond_of_invalid (options : Options) (h : ∀ text : String, text.toUTF8 ≠ bytes) :
    options.respond (.ok bytes) =
      ⟨1, options.banner, options.readError (.unreadable "stream did not contain valid UTF-8")⟩ := by
  have hnone : String.fromUTF8? bytes = none := by
    rw [Option.eq_none_iff_forall_not_mem]
    exact fun text htext => h text (fromUTF8?_eq_some.1 htext)
  simp [Options.respond, Options.conclude, hnone]

/-- **A text of too many bytes is refused.** -/
theorem respond_of_tooLarge (options : Options) (h : text.toUTF8 = bytes) (hsize : sizeLimit < bytes.size) :
    options.respond (.ok bytes) = ⟨1, options.banner, tooLarge bytes.size⟩ := by
  have hlength : text.utf8ByteSize = bytes.size := by rw [← h]; rfl
  simp [Options.respond, Options.conclude, fromUTF8?_eq_some.2 h, Options.checkText, hlength, hsize]

/-- **Any other text is parsed**, and the outcome reported. -/
theorem respond_of_admits (options : Options) (h : Admits bytes text) :
    options.respond (.ok bytes) = ⟨if (parseText text).isOk then 0 else 1,
      options.banner ++ options.format.outcomeText (parseText text), ""⟩ := by
  have hlength : text.utf8ByteSize = bytes.size := by rw [← h.encodes]; rfl
  have hsize : ¬ sizeLimit < bytes.size := Nat.not_lt.2 h.size_le
  simp [Options.respond, Options.conclude, fromUTF8?_eq_some.2 h.encodes, Options.checkText, hlength, hsize]

/-- There is no fourth kind of bytes. -/
theorem bytes_cases (bytes : ByteArray) : (∀ text : String, text.toUTF8 ≠ bytes) ∨
    (∃ text : String, text.toUTF8 = bytes ∧ sizeLimit < bytes.size) ∨ ∃ text, Admits bytes text := by
  by_cases hvalid : ∃ text : String, text.toUTF8 = bytes
  · obtain ⟨text, htext⟩ := hvalid
    rcases Nat.lt_or_ge sizeLimit bytes.size with hlt | hle
    · exact .inr (.inl ⟨text, htext, hlt⟩)
    · exact .inr (.inr ⟨text, htext, hle⟩)
  · exact .inl fun text htext => hvalid ⟨text, htext⟩

theorem banner_of_ne_empty (h : options.banner ≠ "") :
    options = ⟨none, .pretty⟩ ∧ options.banner = line "Reading from standard input..." := by
  obtain ⟨_ | name, _ | _⟩ := options
  · exact ⟨rfl, rfl⟩
  all_goals exact absurd rfl h

/-- A run on bytes that are not parsed. -/
theorem tells_of_not_admits (h : ∀ text, ¬ Admits bytes text) {reason : String} (hreason : reason ≠ "")
    (hinvalid : (∀ text : String, text.toUTF8 ≠ bytes) →
      reason = options.readError (.unreadable "stream did not contain valid UTF-8"))
    (htooLong : ∀ text : String, text.toUTF8 = bytes → sizeLimit < bytes.size → reason = tooLarge bytes.size) :
    options.Tells bytes ⟨1, options.banner, reason⟩ where
  code_eq_zero :=
    ⟨fun (hcode : (1 : UInt32) = 0) => absurd hcode (by decide),
      fun ⟨text, hadmits, _⟩ => absurd hadmits (h text)⟩
  code_eq_one _ := rfl
  stderr_eq_empty := ⟨fun hstderr => absurd hstderr hreason, fun ⟨text, hadmits⟩ => absurd hadmits (h text)⟩
  invalid := hinvalid
  tooLong := htooLong
  silent _ := rfl
  banner := banner_of_ne_empty
  json text hadmits := absurd hadmits (h text)
  accepted text hadmits := absurd hadmits (h text)
  refused text _ hadmits := absurd hadmits (h text)

/-- A report is written on one line. -/
theorem newline_not_mem_render (value : Json) : '\n' ∉ value.render.toList := fun h =>
  absurd (Json.printable_render value _ h) (by decide)

/-- A run on bytes that are parsed. -/
theorem tells_of_admits (options : Options) (h : Admits bytes text) :
    options.Tells bytes ⟨if (parseText text).isOk then 0 else 1,
      options.banner ++ options.format.outcomeText (parseText text), ""⟩ := by
  -- the bytes are no other text
  have hunique : ∀ again, Admits bytes again → again = text := fun again hagain =>
    toUTF8_unique h.encodes hagain.encodes
  refine ⟨?_, ?_, ⟨fun _ => ⟨text, h⟩, fun _ => rfl⟩, fun hinvalid => absurd h.encodes (hinvalid text),
    fun _ _ hlt => absurd h.size_le (Nat.not_le.2 hlt), fun hsilent => absurd h (hsilent text),
    banner_of_ne_empty, ?_, ?_, ?_⟩
  · constructor
    · intro hcode
      cases hparse : parseText text with
      | ok value => exact ⟨text, h, hparse⟩
      | error error =>
        rw [hparse] at hcode
        cases hcode
    · rintro ⟨again, hagain, hok⟩
      rw [hunique again hagain] at hok
      rw [hok]
      rfl
  · cases parseText text with
    | ok value => exact fun hcode => absurd rfl hcode
    | error error => exact fun _ => rfl
  · intro again hagain hjson
    obtain rfl := hunique again hagain
    refine ⟨_, newline_not_mem_render _, rfl, ?_⟩
    obtain ⟨_ | name, format⟩ := options <;> subst hjson <;> exact String.empty_append
  · intro again hagain hpretty hok
    obtain rfl := hunique again hagain
    simp only [hpretty, hok, Format.outcomeText]
  · intro again error hagain hpretty herror
    obtain rfl := hunique again hagain
    simp only [hpretty, herror, Format.outcomeText]

/-- **What a run of the command says about some bytes.** -/
theorem tells (options : Options) (bytes : ByteArray) : options.Tells bytes (options.respond (.ok bytes)) := by
  rcases bytes_cases bytes with hinvalid | ⟨text, htext, hsize⟩ | ⟨text, hadmits⟩
  · rw [respond_of_invalid options hinvalid]
    exact tells_of_not_admits (fun text hadmits => hinvalid text hadmits.encodes) (readError_ne_empty options _)
      (fun _ => rfl) fun text htext => absurd htext (hinvalid text)
  · rw [respond_of_tooLarge options htext hsize]
    exact tells_of_not_admits (fun _ hadmits => absurd hadmits.size_le (Nat.not_le.2 hsize)) (line_ne_empty _)
      (fun hinvalid => absurd htext (hinvalid text)) fun _ _ _ => rfl
  · rw [respond_of_admits options hadmits]
    exact tells_of_admits options hadmits

/-- **Any two runs on the same bytes agree.** -/
theorem agree (options other : Options) (bytes : ByteArray) :
    Agree options other (options.respond (.ok bytes)) (other.respond (.ok bytes)) := by
  rcases bytes_cases bytes with hinvalid | ⟨text, htext, hsize⟩ | ⟨text, hadmits⟩
  · rw [respond_of_invalid options hinvalid, respond_of_invalid other hinvalid]
    refine ⟨rfl, fun hfile => ?_, fun _ => ⟨"", by simp, by simp⟩⟩
    simp only [Options.readError, hfile]
  · rw [respond_of_tooLarge options htext hsize, respond_of_tooLarge other htext hsize]
    exact ⟨rfl, fun _ => rfl, fun _ => ⟨"", by simp, by simp⟩⟩
  · rw [respond_of_admits options hadmits, respond_of_admits other hadmits]
    refine ⟨rfl, fun _ => rfl, fun hformat => ⟨_, rfl, ?_⟩⟩
    rw [hformat]

/-- **No parse of a text reads on from within a character.** -/
theorem parseText_ne_insideCharacter (text : String) (position : Position) :
    parseText text ≠ .error (.lexical (.insideCharacter position)) := by
  intro hinside
  obtain ⟨tokens, last, hdelivers, ⟨eof, after, -, -, hdrain⟩ | ⟨error, after, hlast, hdrain⟩⟩ :=
    FiniteSource.drain_cases (Lexer.ofString text)
  · have hparse : parseText text = parseTokens (tokens ++ [eof]) := parseSource_of_drain hdrain
    rw [hparse] at hinside
    exact parseTokens_ne_lexical _ _ hinside
  rcases parseSource_cases hdelivers hlast with ⟨hparse, -⟩ | hparse
  · -- the error that the text has is none from within a character
    have hlexical : parseText text = .error (.lexical error) := hparse
    rw [hlexical] at hinside
    cases hinside
    obtain ⟨_, _, _, hlex⟩ | ⟨_, _, _, _, _, _, _, hlex⟩ | ⟨_, _, _, _, _, hlex⟩ := lexText_cases text <;>
      rw [lexText, hdrain] at hlex <;> cases hlex
  · have htokens : parseText text = parseTokens (tokens ++ []) := hparse []
    rw [htokens] at hinside
    exact parseTokens_ne_lexical _ _ hinside

/-- **The ways to run the command agree.** Whether a program comes from standard input or from a file, and
whether it is reported in words or in JSON: the exit code says whether it was accepted, standard error
whether there was anything to parse, and standard output what came of it. -/
theorem runs_agree (options other : Options) (bytes : ByteArray) :
    options.Tells bytes (options.respond (.ok bytes)) ∧
      Agree options other (options.respond (.ok bytes)) (other.respond (.ok bytes)) ∧
      ∀ text position, parseText text ≠ .error (.lexical (.insideCharacter position)) :=
  ⟨tells options bytes, agree options other bytes, parseText_ne_insideCharacter⟩

end Cal.Command
