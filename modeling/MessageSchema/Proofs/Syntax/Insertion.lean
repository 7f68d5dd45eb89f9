import MessageSchema.Proofs.Syntax.TokenEnds

namespace MessageSchema.Syntax

open List

/-!
Lexemes between lexemes.

Each lexeme of a source is read without regard to those before it.  So between two
lexemes, or at an end, those of another text can stand, provided that no line
comment runs on.  If that text is trivia then the lexemes around it stay what they
are, but for blanks that join.
-/

/-! ## A source and its lexemes -/

/-- These are the lexemes of the source, in the order in which they are read. -/
inductive Cut : List Lexeme -> List Char -> Prop
  | nil : Cut [] []
  | cons {lexeme : Lexeme} {lexemes : List Lexeme} {rest : List Char} (leads : lexeme.Leads rest)
      (cut : Cut lexemes rest) : Cut (lexeme :: lexemes) (lexeme.text ++ rest)

/-- The text of lexemes in a row. -/
def textOf (lexemes : List Lexeme) : List Char :=
  lexemes.flatMap Lexeme.text

/-- Lexemes as tokens, the first one at the offset, and the token at the end. -/
def placeFrom (offset : Nat) : List Lexeme -> List Token
  | [] => [⟨.final, [], offset, false⟩]
  | lexeme :: rest =>
    ⟨lexeme.kind, lexeme.text, offset, lexeme.escapes⟩ ::
      placeFrom (offset + byteLength lexeme.text) rest

variable {first : Char} {found : Match} {rest source : List Char} {lexeme : Lexeme}
    {lexemes : List Lexeme}

lemma scanFrom_of_leads (leads : lexeme.Leads rest) (offset : Nat) (seen : List Token) :
    scanFrom offset seen (lexeme.text ++ rest) = scanFrom (offset + byteLength lexeme.text)
        (⟨lexeme.kind, lexeme.text, offset, lexeme.escapes⟩ :: seen) rest := by
  rcases leads with ⟨first, further, isText, scanned⟩
  rw [isText, cons_append, scanFrom, scanned]
  simp only [take_left, drop_left, Token.length]

lemma scanFrom_of_cut (cut : Cut lexemes source) (offset : Nat) (seen : List Token) :
    scanFrom offset seen source = ⟨seen.reverse ++ placeFrom offset lexemes, none⟩ := by
  induction cut generalizing offset seen with
  | nil => rw [scanFrom, reverse_cons, placeFrom]
  | cons leads _ ih =>
    rw [scanFrom_of_leads leads, ih, reverse_cons, placeFrom, List.append_assoc,
      singleton_append]

lemma exists_cut_of_scanFrom {offset : Nat} {seen : List Token}
    (complete : (scanFrom offset seen source).error = none) : ∃ lexemes, Cut lexemes source := by
  fun_induction scanFrom offset seen source with
  | case1 => exact ⟨[], .nil⟩
  | case2 => cases complete
  | case3 offset seen first rest found scanned token ih =>
    rcases ih complete with ⟨lexemes, cut⟩
    have joined := Cut.cons (leads_of_nextToken scanned) cut
    rw [cons_append, take_append_drop] at joined
    exact ⟨_, joined⟩

/-- A source is scanned without fault if it can be cut into lexemes, and the
tokens are these lexemes in their places. -/
lemma scan_of_cut (cut : Cut lexemes source) : scan source = ⟨placeFrom 0 lexemes, none⟩ :=
  scanFrom_of_cut cut 0 []

lemma exists_cut_of_scan (complete : (scan source).error = none) : ∃ lexemes, Cut lexemes source :=
  exists_cut_of_scanFrom complete

lemma map_lexeme_placeFrom (offset : Nat) (lexemes : List Lexeme) :
    (placeFrom offset lexemes).map Token.lexeme = lexemes ++ [⟨.final, [], false⟩] := by
  induction lexemes generalizing offset with
  | nil => rfl
  | cons lexeme rest ih =>
    rw [placeFrom, map_cons, ih]
    rfl

/-- A token within placed lexemes stands behind the text of those in front of
it. -/
lemma exists_split_of_placeFrom {offset : Nat} {before after : List Token} {token : Token}
    (placed : placeFrom offset lexemes = before ++ token :: after) :
    ∃ front back, lexemes = front ++ back ∧ before.map Token.lexeme = front ∧
      token.start = offset + byteLength (textOf front) := by
  induction before generalizing offset lexemes with
  | nil =>
    refine ⟨[], lexemes, rfl, rfl, ?_⟩
    cases lexemes with
    | nil =>
      cases placed
      rfl
    | cons lexeme rest =>
      cases placed
      rfl
  | cons first before ih =>
    cases lexemes with
    | nil => simp [placeFrom] at placed
    | cons lexeme rest =>
      rw [placeFrom, cons_append] at placed
      rcases List.cons.inj placed with ⟨isFirst, placed⟩
      rcases ih placed with ⟨front, back, isRest, isFront, isStart⟩
      refine ⟨lexeme :: front, back, by rw [isRest, cons_append], ?_, ?_⟩
      · rw [map_cons, isFront, ← isFirst]
        rfl
      · rw [isStart, textOf, textOf, flatMap_cons, byteLength_append, Nat.add_assoc]

lemma Cut.split {front back : List Lexeme} (cut : Cut (front ++ back) source) :
    ∃ rest, source = textOf front ++ rest ∧ Cut back rest := by
  induction front generalizing source with
  | nil => exact ⟨source, rfl, cut⟩
  | cons lexeme front ih =>
    cases cut with
    | cons leads cut =>
      rcases ih cut with ⟨rest, isRest, cut⟩
      exact ⟨rest, by rw [isRest, textOf, textOf, flatMap_cons, List.append_assoc], cut⟩

/-! ## Faults behind a lexeme -/

/-- The fault at which the scan of the source stops. -/
def scanFault? (source : List Char) : Option Fault :=
  (scan source).error.map Error.fault

/-- The fault does not depend on what was scanned before. -/
lemma fault_scanFrom (offset other : Nat) (seen others : List Token) (source : List Char) :
    (scanFrom offset seen source).error.map Error.fault =
      (scanFrom other others source).error.map Error.fault := by
  fun_induction scanFrom offset seen source generalizing other others with
  | case1 => rw [scanFrom]
  | case2 offset seen first rest error scanned =>
    rw [scanFrom, scanned]
    rfl
  | case3 offset seen first rest found scanned token ih => rw [ih, scanFrom, scanned]

lemma scanFault?_of_leads (leads : lexeme.Leads rest) :
    scanFault? (lexeme.text ++ rest) = scanFault? rest := by
  unfold scanFault? scan
  rw [scanFrom_of_leads leads]
  exact fault_scanFrom _ _ _ _ rest

/-- No token of the source is too long, as far as it is scanned. -/
def NoLong (source : List Char) : Prop :=
  ∀ size, scanFault? source ≠ some (.tokenTooLong size)

lemma NoLong.of_leads (leads : lexeme.Leads rest) (short : NoLong (lexeme.text ++ rest)) :
    NoLong rest := by
  intro size
  rw [← scanFault?_of_leads leads]
  exact short size

/-! ## Blanks in front of a source -/

def spaceOf (blanks : List Char) : Lexeme :=
  ⟨.space, blanks, false⟩

section
variable {blanks rest : List Char} (all : ∀ value ∈ blanks, isBlankChar value = true)
include all

lemma spaceOf_leads (some : blanks ≠ []) (short : byteLength blanks <= maxTokenSize)
    (stops : Stops isBlankChar rest) : (spaceOf blanks).Leads rest := by
  refine Lexeme.leads_iff.mpr ⟨.blanks some all, ?_, short⟩
  simp [Lexeme.EndsBefore, Lexeme.isLineComment, spaceOf, stops]

/-- Blanks are not too long if no token of a source is that starts with them. -/
lemma byteLength_of_noLong (stops : Stops isBlankChar rest) (short : NoLong (blanks ++ rest)) :
    byteLength blanks <= maxTokenSize := by
  cases blanks with
  | nil => exact Nat.zero_le _
  | cons first further =>
    apply Nat.le_of_not_lt
    intro long
    have inside : ∀ value ∈ further, isBlankChar value = true := fun value member =>
      all value (mem_cons_of_mem _ member)
    have scanned : nextToken first (further ++ rest) =
        .error ⟨.tokenTooLong (byteLength (first :: further)),
          ⟨0, storedLength (byteLength (first :: further))⟩⟩ := by
      rw [nextToken_of_blank (all first mem_cons_self), takeWhile_front inside stops]
      simp only [emit]
      rw [if_pos long]
    apply short (byteLength (first :: further))
    unfold scanFault? scan
    rw [cons_append, scanFrom, scanned]
    rfl

end

/-- The blanks at the start of a row, and what stands behind. -/
lemma exists_blanks (row : List Char) :
    ∃ blanks rest, row = blanks ++ rest ∧ (∀ value ∈ blanks, isBlankChar value = true) ∧
      Stops isBlankChar rest :=
  ⟨row.takeWhile isBlankChar, row.dropWhile isBlankChar, List.takeWhile_append_dropWhile.symm,
    fun _ => mem_takeWhile_imp, stops_dropWhile row⟩

variable {row : List Char}

lemma NoLong.of_blanks {blanks : List Char} (all : ∀ value ∈ blanks, isBlankChar value = true)
    (some : blanks ≠ []) (short : NoLong (blanks ++ row)) : NoLong row := by
  rcases exists_blanks row with ⟨further, rest, isRow, inside, stops⟩
  have joined : ∀ value ∈ blanks ++ further, isBlankChar value = true := by
    intro value member
    exact (List.mem_append.mp member).elim (all value) (inside value)
  rw [isRow, ← List.append_assoc] at short
  have size := byteLength_of_noLong joined stops short
  have leads := spaceOf_leads joined (by simp [some]) size stops
  have shortRest : NoLong rest := NoLong.of_leads leads short
  rw [isRow]
  by_cases none : further = []
  · rw [none]
    exact shortRest
  · intro long
    rw [byteLength_append] at size
    have leads := spaceOf_leads inside none (by omega) stops
    rw [show further = (spaceOf further).text from rfl, scanFault?_of_leads leads]
    exact shortRest long

/-- The lexemes that mean something. -/
def meaningful (lexemes : List Lexeme) : List Lexeme :=
  lexemes.filter fun lexeme => !lexeme.kind.isTrivia

lemma meaningful_append (left right : List Lexeme) :
    meaningful (left ++ right) = meaningful left ++ meaningful right :=
  filter_append left right

lemma meaningful_cons_of_trivia (trivia : lexeme.kind.isTrivia = true) (lexemes : List Lexeme) :
    meaningful (lexeme :: lexemes) = meaningful lexemes := by
  simp [meaningful, trivia]

lemma Lexeme.Leads.text_ne_nil (leads : lexeme.Leads rest) : lexeme.text ≠ [] := by
  rcases leads with ⟨first, further, isText, _⟩
  rw [isText]
  exact cons_ne_nil _ _

/-- A lexeme of blanks consists of blanks. -/
lemma Lexeme.Leads.blank_of_space (leads : lexeme.Leads rest) (space : lexeme.kind = .space) :
    ∀ value ∈ lexeme.text, isBlankChar value = true :=
  (Lexeme.leads_iff.mp leads).formed.toldByKind.space space

lemma Lexeme.Leads.space_of_blank (leads : lexeme.Leads rest)
    (blank : ¬ Stops isBlankChar (lexeme.text ++ rest)) : lexeme.kind = .space := by
  rcases leads with ⟨first, further, isText, scanned⟩
  rw [isText, cons_append, stops_cons_iff, Bool.not_eq_false] at blank
  rw [nextToken_of_blank blank] at scanned
  exact congrArg Match.kind (eq_of_emit scanned)

/-- Blanks in front of a source join with those at its start. -/
lemma Cut.blanks {blanks : List Char} (all : ∀ value ∈ blanks, isBlankChar value = true)
    (some : blanks ≠ []) (cut : Cut lexemes row) (short : NoLong (blanks ++ row)) :
    ∃ others, Cut others (blanks ++ row) ∧ meaningful others = meaningful lexemes := by
  by_cases stops : Stops isBlankChar row
  · have size := byteLength_of_noLong all stops short
    exact ⟨_, .cons (spaceOf_leads all some size stops) cut, meaningful_cons_of_trivia rfl lexemes⟩
  · cases cut with
    | nil => exact absurd rfl stops
    | @cons lexeme lexemes rest leads cut =>
      have space := leads.space_of_blank stops
      have stopsRest := leads.endsBefore.1.1 space
      have joined : ∀ value ∈ blanks ++ lexeme.text, isBlankChar value = true := by
        intro value member
        exact (List.mem_append.mp member).elim (all value) (leads.blank_of_space space value)
      rw [← List.append_assoc] at short ⊢
      have size := byteLength_of_noLong joined stopsRest short
      have joinedLeads := spaceOf_leads joined (by simp [some]) size stopsRest
      refine ⟨_, .cons joinedLeads cut, ?_⟩
      rw [meaningful_cons_of_trivia rfl, meaningful_cons_of_trivia (by rw [space]; rfl)]

/-! ## Trivia in front of a source -/

/-- Characters with which trivia does not start. -/
def isContentStart (value : Char) : Bool :=
  isWordChar value || value == '.'

lemma Lexeme.Leads.stops_of_trivia (leads : lexeme.Leads rest)
    (trivia : lexeme.kind.isTrivia = true) (other : List Char) :
    Stops isContentStart (lexeme.text ++ other) := by
  cases (Lexeme.leads_iff.mp leads).formed with
  | mark mark =>
    unfold markKind? at mark
    split at mark <;> cases mark <;> first | rfl | cases trivia
  | number number =>
    have listed := number.kind_mem
    simp only [mem_cons, not_mem_nil, or_false] at listed
    rcases listed with rfl | rfl | rfl <;> cases trivia
  | blanks some all =>
    rcases exists_cons_of_ne_nil some with ⟨first, further, rfl⟩
    have blank := all first mem_cons_self
    simp only [isBlankChar, Bool.or_eq_true, beq_iff_eq] at blank
    rcases blank with (rfl | rfl) | rfl <;> rfl
  | lineEnd | lineComment _ | blockComment _ => rfl
  | text | word => cases trivia

/-- A lexeme can end in front of a longer row if it can end in front of its
start. -/
lemma Lexeme.EndsBefore.append (ends : lexeme.EndsBefore row) (some : row ≠ [])
    (trivia : lexeme.kind.isTrivia = true) (rest : List Char) :
    lexeme.EndsBefore (row ++ rest) := by
  refine ⟨fun space => (ends.1 space).append some rest, fun line =>
    (ends.2.1 line).append some rest,
    fun item => (ends.2.2.1 item).append some rest, ?_⟩
  intro int
  rw [int] at trivia
  cases trivia

/-- Line ends and block comments can end everywhere. -/
lemma Lexeme.endsBefore_of_closed_comment (trivia : lexeme.kind.isTrivia = true)
    (noSpace : lexeme.kind ≠ .space) (closed : lexeme.isLineComment = false) (row : List Char) :
    lexeme.EndsBefore row := by
  by_cases comment : lexeme.kind = .comment
  · exact Lexeme.endsBefore_of_comment comment fun line => absurd line (by simp [closed])
  · apply Lexeme.endsBefore_of_closed
    revert trivia noSpace comment
    generalize lexeme.kind = kind
    cases kind <;> decide

/-- Trivia in front of a source means nothing. -/
lemma Cut.trivia {gap : List Lexeme} {text : List Char} (cutGap : Cut gap text)
    (trivia : ∀ lexeme ∈ gap, lexeme.kind.isTrivia = true)
    (closed : ∀ last, gap.getLast? = some last -> last.isLineComment = false)
    (cut : Cut lexemes row)
    (short : NoLong (text ++ row)) :
    ∃ others, Cut others (text ++ row) ∧ meaningful others = meaningful lexemes := by
  induction cutGap with
  | nil => exact ⟨lexemes, cut, rfl⟩
  | @cons lexeme gap text leads cutGap ih =>
    have isTrivia := trivia lexeme mem_cons_self
    have triviaGap : ∀ other ∈ gap, other.kind.isTrivia = true := fun other member =>
      trivia other (mem_cons_of_mem _ member)
    have closedGap : ∀ last, gap.getLast? = some last -> last.isLineComment = false := by
      intro last isLast
      apply closed last
      rw [getLast?_cons, isLast]
      rfl
    rw [List.append_assoc] at short ⊢
    by_cases space : lexeme.kind = .space
    · have all := leads.blank_of_space space
      rcases ih triviaGap closedGap (short.of_blanks all leads.text_ne_nil) with
        ⟨others, cutOthers, same⟩
      rcases cutOthers.blanks all leads.text_ne_nil short with ⟨joined, cutJoined, sameJoined⟩
      exact ⟨joined, cutJoined, by rw [sameJoined, same]⟩
    · have ends : lexeme.EndsBefore (text ++ row) := by
        cases cutGap with
        | nil =>
          apply Lexeme.endsBefore_of_closed_comment isTrivia space
          exact closed lexeme rfl
        | cons leadsNext _ =>
          exact leads.endsBefore.1.append (by simp [leadsNext.text_ne_nil]) isTrivia row
      have leadsRow := leads.endsBefore.2 _ ends
      rcases ih triviaGap closedGap (NoLong.of_leads leadsRow short) with
        ⟨others, cutOthers, same⟩
      exact ⟨_, .cons leadsRow cutOthers, by rw [meaningful_cons_of_trivia isTrivia, same]⟩

/-! ## Trivia within a source -/

/-- The two characters behind a lexeme decide whether it ends, so what stands further on can
be replaced, as long as no digit comes behind a point. -/
lemma Lexeme.EndsBefore.replace {front : List Char} (ends : lexeme.EndsBefore (front ++ rest))
    (some : front ≠ []) {other : List Char} (stops : Stops isContentStart other) :
    lexeme.EndsBefore (front ++ other) := by
  rcases ends with ⟨space, line, item, point⟩
  cases front with
  | nil => exact absurd rfl some
  | cons first further =>
    refine ⟨space, line, item, fun int => ?_⟩
    rintro ⟨digit, behind, same, isDigit⟩
    rw [cons_append, List.cons.injEq] at same
    cases further with
    | nil =>
      rw [show other = digit :: behind from same.2, stops_cons_iff] at stops
      simp [isContentStart, isWordChar, Char.isAlphanum, isDigit] at stops
    | cons second further =>
      rw [cons_append, List.cons.injEq] at same
      apply point int
      exact ⟨second, further ++ rest, by rw [same.1]; rfl, by rwa [same.2.1]⟩

/-- In front of trivia all lexemes but blanks and line comments can end. -/
lemma Lexeme.endsBefore_of_stops (noSpace : lexeme.kind ≠ .space)
    (closed : lexeme.isLineComment = false) (stops : Stops isContentStart row) :
    lexeme.EndsBefore row := by
  refine ⟨fun space => absurd space noSpace, fun line => absurd line (by simp [closed]),
    fun _ => stops.imp ?_, fun _ => ?_⟩
  · intro value word
    rw [isContentStart, word, Bool.true_or]
  · rintro ⟨digit, behind, same, _⟩
    rw [same, stops_cons_iff] at stops
    exact absurd stops (by decide)

/-- Another source that starts like trivia can stand behind lexemes of a source.  That no
token is too long is handed on from the front to the back, so the other source is cut last.
-/
lemma Cut.replace {front back meaning : List Lexeme} (cut : Cut (front ++ back) source)
    (closed : ∀ last, front.getLast? = some last -> last.isLineComment = false)
    (stops : Stops isContentStart row)
    (behind : NoLong row -> ∃ others, Cut others row ∧ meaningful others = meaning)
    (short : NoLong (textOf front ++ row)) : ∃ joined, Cut joined (textOf front ++ row) ∧
      meaningful joined = meaningful front ++ meaning := by
  induction front generalizing source with
  | nil => exact behind short
  | cons lexeme front ih =>
    have closedFront : ∀ last, front.getLast? = some last -> last.isLineComment = false := by
      intro last isLast
      apply closed last
      rw [getLast?_cons, isLast]
      rfl
    rw [textOf, flatMap_cons, List.append_assoc, ← textOf] at short ⊢
    cases cut with
    | @cons _ _ rest leads cut =>
      by_cases space : lexeme.kind = .space
      · have all := leads.blank_of_space space
        rcases ih cut closedFront (short.of_blanks all leads.text_ne_nil) with
          ⟨joined, cutJoined, same⟩
        rcases cutJoined.blanks all leads.text_ne_nil short with ⟨final, cutFinal, sameFinal⟩
        refine ⟨final, cutFinal, ?_⟩
        rw [sameFinal, same, meaningful_cons_of_trivia (by rw [space]; rfl)]
      · have ends : lexeme.EndsBefore (textOf front ++ row) := by
          rcases cut.split with ⟨_, isRest, _⟩
          cases front with
          | nil => exact Lexeme.endsBefore_of_stops space (closed lexeme rfl) stops
          | cons next front =>
            have endsRest := leads.endsBefore.1
            rw [isRest] at endsRest
            apply endsRest.replace _ stops
            cases cut with
            | cons leadsNext _ => simp [textOf, leadsNext.text_ne_nil]
        have leadsRow := leads.endsBefore.2 _ ends
        rcases ih cut closedFront (NoLong.of_leads leadsRow short) with
          ⟨joined, cutJoined, same⟩
        refine ⟨_, .cons leadsRow cutJoined, ?_⟩
        calc
          meaningful (lexeme :: joined) = meaningful [lexeme] ++ meaningful joined :=
            meaningful_append [lexeme] joined
          _ = meaningful [lexeme] ++ (meaningful front ++ meaning) := by rw [same]
          _ = meaningful (lexeme :: front) ++ meaning := by
            rw [← List.append_assoc, ← meaningful_append, singleton_append]

/-- Trivia can stand between lexemes of a source, and the lexemes that mean
something stay the same. -/
lemma Cut.insert {front back gap : List Lexeme} {text : List Char}
    (cut : Cut (front ++ back) (textOf front ++ rest)) (cutBack : Cut back rest)
    (closed : ∀ last, front.getLast? = some last -> last.isLineComment = false)
    (cutGap : Cut gap text) (trivia : ∀ lexeme ∈ gap, lexeme.kind.isTrivia = true)
    (closedGap : ∀ last, gap.getLast? = some last -> last.isLineComment = false)
    (short : NoLong (textOf front ++ (text ++ rest))) :
    ∃ joined, Cut joined (textOf front ++ (text ++ rest)) ∧
      meaningful joined = meaningful (front ++ back) := by
  rw [meaningful_append]
  by_cases none : text = []
  · rw [none]
    exact ⟨_, cut, meaningful_append front back⟩
  · have stops : Stops isContentStart (text ++ rest) := by
      cases cutGap with
      | nil => exact absurd rfl none
      | cons leads _ =>
        rw [List.append_assoc]
        exact leads.stops_of_trivia (trivia _ mem_cons_self) _
    exact cut.replace closed stops (cutGap.trivia trivia closedGap cutBack) short

end MessageSchema.Syntax
