import Cal.Proofs.Parser.Deletion
import Cal.Proofs.Parser.Horizon
import Cal.Proofs.Parser.OnDemand

/-!
# What of the tokens matters

A parse of tokens reads the list up to the first token that ends the input, and supplies that token
where the list lacks it. Of what it reads it is guided by the kinds alone: lexemes and positions only
appear in the error that it may come to.

* `streamOf_eq`: a parse sees the tokens that it reads, and from the last of them on just that.
* `guided_after`: where the kinds are the same, two parses go through the same agendas.
* `only_kinds_matter`: how their outcomes correspond, and which lists are parsed alike.
-/

namespace Cal

/-- The token that ends a list: its first one that ends the input, or the end of the input just behind its
last token. -/
def TokenList.ending (list : TokenList) : Token :=
  (list.tokens.find? Token.isEof).getD (.eof ((list.tokens.getLast?.map Token.finish).getD list.finish))

/-- The tokens of a list that are read: those before the end of the input, and the one that ends it. -/
def TokenList.read (list : TokenList) : List Token :=
  list.tokens.takeWhile (fun token => !token.isEof) ++ [list.ending]

/-- The tokens that a parse of tokens reads. -/
def readOf (tokens : List Token) : List Token := (TokenList.ofList tokens).read

variable {tokens others rest : List Token} {token eof : Token} {k n : Nat}

namespace TokenList

variable {finish : Position}

theorem ending_of_eof (h : token.isEof = true) : (mk (token :: tokens) finish).ending = token := by
  simp [ending, h]

theorem ending_cons (h : token.isEof = false) :
    (mk (token :: tokens) finish).ending = (mk tokens token.finish).ending := by
  have hlast : (((token :: tokens).getLast?).map Token.finish).getD finish =
      (tokens.getLast?.map Token.finish).getD token.finish := by
    rw [List.getLast?_cons]
    cases tokens.getLast? <;> rfl
  simp only [ending, List.find?_cons, h, hlast]

theorem kind_ending (list : TokenList) : list.ending.kind = .eof := by
  unfold ending
  cases hfind : list.tokens.find? Token.isEof with
  | none => rfl
  | some eof =>
    have heof : eof.isEof = true := List.find?_some hfind
    exact of_decide_eq_true heof

/-- **What a list shows is what is read of it**, and at last the end for ever. -/
theorem shown_eq (tokens : List Token) (finish : Position) (k : Nat) :
    (mk tokens finish).shown k = ((mk tokens finish).read[k]?).getD (mk tokens finish).ending := by
  induction tokens generalizing finish k with
  | nil => cases k <;> rfl
  | cons token tokens ih =>
    cases heof : token.isEof with
    | true =>
      rw [read, ending_of_eof heof]
      cases k with
      | zero => simp [shown, heof]
      | succ k => simp [shown, heof]
    | false =>
      have hread : (mk (token :: tokens) finish).read = token :: (mk tokens token.finish).read := by
        simp [read, heof, ending_cons heof]
      rw [hread, ending_cons heof]
      cases k with
      | zero => rfl
      | succ k =>
        rw [shown, heof, List.getElem?_cons_succ]
        exact ih token.finish k

end TokenList

/-- **A parse sees the tokens that it reads.** -/
theorem streamOf_eq (tokens : List Token) (k : Nat) :
    streamOf tokens k = ((readOf tokens)[k]?).getD (TokenList.ofList tokens).ending :=
  TokenList.shown_eq tokens .start k

theorem kinds_readOf (tokens : List Token) : kindsIn (readOf tokens) = kindsBeforeEof tokens ++ [.eof] := by
  rw [readOf, TokenList.read, kindsIn, List.map_append, List.map_singleton, TokenList.kind_ending]
  rfl

/-- Before the end of the input the kinds seen are those of the list, and from there on its end. -/
theorem kind_streamOf (tokens : List Token) (k : Nat) :
    (streamOf tokens k).kind = ((kindsBeforeEof tokens ++ [.eof])[k]?).getD .eof := by
  rw [streamOf_eq, ← kinds_readOf, kindsIn, List.getElem?_map]
  cases (readOf tokens)[k]? with
  | none => exact TokenList.kind_ending _
  | some token => rfl

/-- Lists that are read alike are parsed alike. -/
theorem parseTokens_congr (h : readOf others = readOf tokens) : parseTokens others = parseTokens tokens := by
  have hending : (TokenList.ofList others).ending = (TokenList.ofList tokens).ending :=
    (List.append_inj' h rfl).2 |> List.singleton_inj.1
  have houtlook : Source.outlook (TokenList.ofList others) = Source.outlook (TokenList.ofList tokens) := by
    funext k
    rw [TokenList.ofList, TokenList.ofList, TokenList.outlook_eq, TokenList.outlook_eq]
    have hstream : streamOf others k = streamOf tokens k := by rw [streamOf_eq, streamOf_eq, h, hending]
    exact congrArg Except.ok hstream
  obtain ⟨after, hreturns⟩ := parseSource_returns (TokenList.ofList tokens)
  obtain ⟨after', hother⟩ := parseSource_returns (TokenList.ofList others)
  obtain ⟨twin, htwin⟩ := returns_congr houtlook hreturns
  exact (htwin.unique hother).1

section Guided

variable {a b : List Token}

/-- What is planned depends on the kinds of the tokens. -/
theorem planAt_congr {stream other : Nat → Token} (h : ∀ k, (other k).kind = (stream k).kind) (n : Nat)
    (goal : Goal) : goal.planAt other n = goal.planAt stream n := by
  unfold Goal.planAt
  rw [h, h]

/-- A plan that is carried out before one token is carried out before any other. -/
theorem Plan.carryOut_token {plan : Plan} {standing reached : Standing} {goals : List Goal}
    (h : plan.carryOut token standing = .ok goals reached) (other : Token) :
    plan.carryOut other standing = .ok goals reached := by
  rcases ok_cases h with ⟨rfl, rfl, rfl⟩ | ⟨missed, rfl, rfl⟩ | ⟨missed, inner, rfl, hnone, rfl, rfl⟩ |
    ⟨rfl, rfl, rfl⟩
  · rfl
  · rfl
  · simp only [carryOut, hnone]
  · rfl

/-- **Where the kinds are the same, two parses go through the same agendas**, and stand where the other
stands. -/
theorem guided_after {stage : Stage TokenList} (hkinds : kindsBeforeEof a = kindsBeforeEof b)
    (hstage : (Stage.ofTokens a).after n = some stage) :
    ∃ twin, (Stage.ofTokens b).after n = some twin ∧ twin.agenda = stage.agenda ∧
      twin.parser.standing = stage.parser.standing := by
  have hstream : ∀ k, (streamOf b k).kind = (streamOf a k).kind := by
    intro k
    rw [kind_streamOf, kind_streamOf, hkinds]
  induction n generalizing stage with
  | zero =>
    cases hstage
    exact ⟨_, rfl, rfl, rfl⟩
  | succ n ih =>
    obtain ⟨before, hbefore, hnext⟩ := Stage.after_succ.1 hstage
    have hsound := Stage.sound_after rfl (reads_ofList a) hbefore
    obtain ⟨goal, rest, goals, hagenda, hlater, hplan, -⟩ := hsound.planned hnext
    obtain ⟨⟨agenda, parser⟩, htwin, hsame, hstands⟩ := ih hbefore
    obtain rfl : agenda = goal :: rest := hsame.trans hagenda
    have hreads := (Stage.sound_after rfl (reads_ofList b) htwin).reads
    have hgeneration : parser.generation = before.parser.generation := congrArg Standing.generation hstands
    -- the other parse has the same plan, and carries it out before a token of its own
    have hplan' : (goal.planAt (streamOf b) parser.generation).carryOut (streamOf b parser.generation)
        parser.standing = .ok goals stage.parser.standing := by
      rw [hgeneration, planAt_congr hstream, hstands]
      exact Plan.carryOut_token hplan _
    obtain ⟨after, hafter, hreached⟩ := Stage.exists_next htwin hreads hplan'
    exact ⟨_, hafter, hlater.symm, hreached.stands⟩

/-- Two outcomes that correspond: both accept, or both refuse the tokens at one place of what they read,
in the same way and expecting the same. -/
inductive Correspond (a b : List Token) : Outcome → Outcome → Prop
  | accepted : Correspond a b (.ok ()) (.ok ())
  | unexpected {place : Nat} {token other : Token} (expected : KindSet) :
    (readOf a)[place]? = some token → (readOf b)[place]? = some other →
      Correspond a b (.error (.unexpected ⟨token, expected⟩)) (.error (.unexpected ⟨other, expected⟩))
  | tooDeep {place : Nat} {token other : Token} :
    (readOf a)[place]? = some token → (readOf b)[place]? = some other →
      Correspond a b (.error (.tooDeep nestingLimit token.position))
        (.error (.tooDeep nestingLimit other.position))

/-- What a parse has next before it, as long as the input has not ended, it reads. -/
theorem getElem?_readOf (h : n ≤ (kindsBeforeEof tokens).length) :
    (readOf tokens)[n]? = some (streamOf tokens n) := by
  have hlength : (readOf tokens).length = (kindsBeforeEof tokens).length + 1 := by
    simpa using congrArg List.length (kinds_readOf tokens)
  have hn : n < (readOf tokens).length := by omega
  rw [streamOf_eq, List.getElem?_eq_getElem hn, Option.getD_some]

/-- **Only the kinds decide.** -/
theorem correspond_of_kinds (hkinds : kindsBeforeEof a = kindsBeforeEof b) :
    Correspond a b (parseTokens a) (parseTokens b) := by
  obtain ⟨n, stage, hstage, hends, -⟩ := program_ends (reads_ofList a)
  obtain ⟨twin, htwin, hagenda, hstands⟩ := guided_after hkinds hstage
  have hgeneration : twin.parser.generation = stage.parser.generation := congrArg Standing.generation hstands
  have hstream : ∀ k, (streamOf b k).kind = (streamOf a k).kind := by
    intro k
    rw [kind_streamOf, kind_streamOf, hkinds]
  have hother {outcome : Outcome} (h : twin.Ends (streamOf b) outcome) : parseTokens b = outcome :=
    outcome_of_ends (reads_ofList b) htwin h
  obtain ⟨outcome, houtcome⟩ : ∃ outcome, parseTokens a = outcome := ⟨_, rfl⟩
  have hends : stage.Ends (streamOf a) outcome := houtcome ▸ hends
  rw [houtcome]
  cases hends with
  | accepted hnil =>
    rw [hother (.accepted (hagenda.trans hnil))]
    exact .accepted
  | refused hcons hplan =>
    have hplan' := (planAt_congr hstream _ _).trans hplan
    rw [← hgeneration] at hplan'
    have hrefused := hother (.refused (hagenda.trans hcons) hplan')
    rw [hgeneration, hstands] at hrefused
    -- what is refused is refused before the input has ended
    have hfaithful := (Stage.sound_after rfl (reads_ofList a) hstage).faithful
    rw [hcons] at hfaithful
    have hplace := le_of_eof_not_mem (hfaithful.eof_not_mem hplan)
    rw [hrefused]
    exact .unexpected _ (getElem?_readOf hplace) (getElem?_readOf (hkinds ▸ hplace))
  | tooDeep hcons hplan hlimit =>
    obtain rfl := limit_of_tooDeep houtcome
    have hplan' := (planAt_congr hstream _ _).trans hplan
    rw [← hgeneration] at hplan'
    have hdeep := hother (.tooDeep (hagenda.trans hcons) hplan' (hstands ▸ hlimit))
    rw [hgeneration] at hdeep
    -- the token that would open a body does not end the input
    have hplace : stage.parser.generation ≤ (kindsBeforeEof a).length := by
      have hopens : (_ : Plan).opens = true := congrArg Plan.opens hplan
      have hkind := (Goal.next_of_opens Goal.leftParen_of_hits hopens).1
      by_contra hbeyond
      refine hkind ?_
      rw [kind_streamOf, List.getElem?_eq_none (by simp; omega), Option.getD_none]
    rw [hdeep]
    exact .tooDeep (getElem?_readOf hplace) (getElem?_readOf (hkinds ▸ hplace))

end Guided

/-- A list that lacks the end of the input is read to its last token, and its end is supplied. -/
theorem readOf_ongoing (h : ∀ token ∈ tokens, token.isEof = false) :
    readOf tokens = tokens ++ [.eof ((tokens.getLast?.map Token.finish).getD .start)] := by
  have hnone : tokens.find? Token.isEof = none :=
    List.find?_eq_none.2 fun token htoken => by simp [h token htoken]
  have hall : tokens.takeWhile (fun token => !token.isEof) = tokens :=
    List.takeWhile_eq_self_iff.2 fun token htoken => by simp [h token htoken]
  simp only [readOf, TokenList.read, TokenList.ending, TokenList.ofList, hnone, hall, Option.getD_none]

/-- Nothing behind the end of the input is read. -/
theorem readOf_ended (h : ∀ token ∈ tokens, token.isEof = false) (heof : eof.isEof = true) :
    readOf (tokens ++ eof :: rest) = tokens ++ [eof] := by
  have hnone : tokens.find? Token.isEof = none :=
    List.find?_eq_none.2 fun token htoken => by simp [h token htoken]
  have hbefore : (tokens ++ eof :: rest).takeWhile (fun token => !token.isEof) = tokens := by
    rw [List.takeWhile_append_of_pos fun token htoken => by simp [h token htoken]]
    simp [heof]
  have hfind : (tokens ++ eof :: rest).find? Token.isEof = some eof := by
    rw [List.find?_append, hnone, Option.none_or, List.find?_cons_of_pos heof]
  simp only [readOf, TokenList.read, TokenList.ending, TokenList.ofList, hbefore, hfind, Option.getD_some]

theorem column_advanceColumns (position : Position) (width : Nat) :
    (position.advanceColumns width).column.toNat = min (position.column.toNat + width) (2 ^ 32 - 1) := by
  have hlast : min (position.column.toNat + width) (2 ^ 32 - 1) < 2 ^ 32 := by omega
  exact Nat.mod_eq_of_lt hlast

/-- **Only the kinds up to the first end of the input matter.** Lists that agree in them have outcomes that
correspond, whatever else they say. A list without an end of the input is parsed as if that stood just
behind its last token, at the last column if there is none behind; and nothing behind the first end of the
input is looked at. -/
theorem only_kinds_matter :
    (∀ a b : List Token, kindsBeforeEof a = kindsBeforeEof b → Correspond a b (parseTokens a) (parseTokens b)) ∧
    (∀ tokens : List Token, (∀ token ∈ tokens, token.isEof = false) → ∃ finish : Position,
      (tokens = [] → finish = ⟨1, 1⟩) ∧
      (∀ last, tokens.getLast? = some last → finish.line = last.position.line ∧
        finish.column.toNat = min (last.position.column.toNat + last.lexeme.length) (2 ^ 32 - 1)) ∧
      readOf tokens = tokens ++ [.eof finish] ∧
      parseTokens tokens = parseTokens (tokens ++ [.eof finish])) ∧
    ∀ (tokens : List Token) (eof : Token) (rest : List Token), (∀ token ∈ tokens, token.isEof = false) →
      eof.isEof = true → readOf (tokens ++ eof :: rest) = tokens ++ [eof] ∧
        parseTokens (tokens ++ eof :: rest) = parseTokens (tokens ++ [eof]) := by
  refine ⟨fun a b => correspond_of_kinds, fun tokens h => ?_, fun tokens eof rest h heof => ?_⟩
  · have hread := readOf_ongoing h
    refine ⟨(tokens.getLast?.map Token.finish).getD .start, ?_, ?_, hread, ?_⟩
    · rintro rfl
      rfl
    · intro last hlast
      rw [hlast, Option.map_some, Option.getD_some]
      exact ⟨rfl, column_advanceColumns _ _⟩
    · exact parseTokens_congr (hread.trans (readOf_ended h rfl).symm)
  · have hread : readOf (tokens ++ eof :: rest) = tokens ++ [eof] := readOf_ended h heof
    exact ⟨hread, parseTokens_congr (hread.trans (readOf_ended h heof).symm)⟩

end Cal
