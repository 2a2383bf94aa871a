import TextureLoom.Proofs.Source.Words

set_option autoImplicit false

namespace TextureLoom.Source

open String (utf8Len)

/-! ### Where a text can be cut -/

/-- A text can be cut here: between two characters or at an end. -/
def Cuts (text : String) (offset : Nat) : Prop :=
  offset ≤ text.utf8ByteSize ∧ (⟨offset⟩ : String.Pos.Raw).IsValid text

theorem cuts_of_split {text : String} {before after : List Char} (split : text.toList = before ++ after) :
    Cuts text (utf8Len before) := by
  have joined : text = String.ofList before ++ String.ofList after := by
    rw [← String.ofList_append, ← split, String.ofList_toList]
  refine ⟨?_, String.Pos.Raw.isValid_iff_exists_append.mpr ⟨_, _, joined, ?_⟩⟩
  · have size : text.utf8ByteSize = utf8Len before + utf8Len after := by
      rw [← String.utf8Len_append, ← split, String.utf8Len_toList]
    omega
  · rw [String.rawEndPos_ofList]

theorem cuts_end (text : String) : Cuts text text.utf8ByteSize := by
  have cuts : Cuts text (utf8Len text.toList) := cuts_of_split (List.append_nil _).symm
  rwa [String.utf8Len_toList] at cuts

/-- A token starts behind characters that were lexed before. -/
theorem Lexes.exists_start {offset : Nat} {cs : List Char} {tokens : List Token} (lexes : Lexes offset cs tokens) :
    ∀ t ∈ tokens, ∃ before after, cs = before ++ after ∧ t.start = offset + utf8Len before := by
  induction lexes with
  | finish => exact fun t member => nomatch member
  | gap skipped lexes ih =>
    intro t member
    obtain ⟨before, after, rfl, start⟩ := ih t member
    refine ⟨skipped ++ before, after, (List.append_assoc ..).symm, ?_⟩
    rw [start, String.utf8Len_append, Nat.add_assoc]
  | @word offset kind word rest tokens isWord noCross lexes ih =>
    intro t member
    rcases List.mem_cons.mp member with rfl | later
    · exact ⟨[], word ++ rest, rfl, rfl⟩
    · obtain ⟨before, after, rfl, start⟩ := ih t later
      refine ⟨word ++ before, after, (List.append_assoc ..).symm, ?_⟩
      rw [start, String.utf8Len_append, Nat.add_assoc]
  | @size offset width height word rest cross _ _ tokens isWord isCross lexes ih =>
    intro t member
    have one : cross.utf8Size = 1 := by rcases isCross with rfl | rfl <;> rfl
    rcases List.mem_cons.mp member with rfl | member
    · exact ⟨[], word ++ cross :: rest, rfl, rfl⟩
    rcases List.mem_cons.mp member with rfl | later
    · exact ⟨word, cross :: rest, rfl, rfl⟩
    · obtain ⟨before, after, rfl, start⟩ := ih t later
      refine ⟨word ++ cross :: before, after, by simp, ?_⟩
      rw [start, String.utf8Len_append, String.utf8Len_cons, one]
      omega

theorem cuts_start {text : String} {tokens : List Token} (lexed : lex text = .ok tokens) :
    ∀ t ∈ tokens, Cuts text t.start := by
  intro t member
  obtain ⟨before, after, split, start⟩ := (lexes_of_lex lexed).exists_start t member
  rw [start, Nat.zero_add]
  exact cuts_of_split split

/-! ### What the lexer rejects -/

/-- The complaint is about what stands at the front of the text. -/
def Rejects (rest : List Char) : Complaint → Prop
  | .unexpectedCharacter c => ∃ tail, rest = c :: tail
  | .unterminatedString => ∃ body, rest = '"' :: body ∧ ∀ offset, literalBody [] offset body = none
  | .invalidNumber text | .numberOutOfRange text =>
    ∃ negative digits tail, text = String.ofList (signed negative digits) ∧ rest = signed negative digits ++ tail ∧
      digits ≠ [] ∧ ∀ d ∈ digits, d.isDigit
  | _ => False

theorem complaint_of_numberValue {negative : Bool} {digits : List Char} {complaint : Complaint}
    (failed : numberValue negative digits = .error complaint) :
    complaint = .invalidNumber (String.ofList (signed negative digits)) ∨
      complaint = .numberOutOfRange (String.ofList (signed negative digits)) := by
  cases negative
  all_goals
    unfold numberValue at failed
    simp only [Bool.false_eq_true, ↓reduceIte] at failed
    split at failed
    · cases failed
      exact .inl rfl
    · split at failed
      · cases failed
        exact .inr rfl
      · cases failed

theorem rejects_of_biteNumber {offset : Nat} {negative : Bool} {c : Char} {cs : List Char} {e : SyntaxError}
    (digit : c.isDigit) (failed : biteNumber offset negative (c :: cs) = .error e) :
    e.offset = offset ∧ Rejects (signed negative (c :: cs)) e.complaint := by
  unfold biteNumber at failed
  dsimp only at failed
  split at failed
  · rename_i complaint wrong
    cases failed
    have digits : (c :: cs).takeWhile Char.isDigit ≠ [] := by simp [digit]
    have each : ∀ d ∈ (c :: cs).takeWhile Char.isDigit, d.isDigit := by
      intro d member
      exact List.all_eq_true.mp List.all_takeWhile d member
    have split : signed negative (c :: cs) =
        signed negative ((c :: cs).takeWhile Char.isDigit) ++ (c :: cs).dropWhile Char.isDigit := by
      cases negative <;> simp [signed]
    refine ⟨rfl, ?_⟩
    rcases complaint_of_numberValue wrong with rfl | rfl
    · exact ⟨negative, _, _, rfl, split, digits, each⟩
    · exact ⟨negative, _, _, rfl, split, digits, each⟩
  · split at failed
    · split at failed <;> cases failed
    · cases failed

theorem literalBody_eq_none {cs : List Char} {start : Nat} (open' : literalBody [] start cs = none) (offset : Nat) :
    literalBody [] offset cs = none := by
  by_contra closed
  obtain ⟨⟨content, stop, rest⟩, closes⟩ := Option.ne_none_iff_exists'.mp closed
  obtain ⟨body, rfl, again⟩ := exists_body_of_literalBody closes
  cases (again start rest).symm.trans open'

theorem rejects_of_biteText {offset : Nat} {c : Char} {cs : List Char} {e : SyntaxError}
    (failed : biteText offset c cs = .error e) : e.offset = offset ∧ Rejects (c :: cs) e.complaint := by
  unfold biteText at failed
  split at failed
  · rename_i quote
    obtain rfl := eq_of_beq quote
    unfold biteLiteral at failed
    split at failed
    · cases failed
    · rename_i unclosed
      cases failed
      exact ⟨rfl, cs, rfl, literalBody_eq_none unclosed⟩
  · split at failed
    · cases failed
    · split at failed
      · cases failed
      · cases failed
        exact ⟨rfl, cs, rfl⟩

theorem rejects_of_bite {offset : Nat} {c : Char} {cs : List Char} {e : SyntaxError}
    (failed : bite offset c cs = .error e) : e.offset = offset ∧ Rejects (c :: cs) e.complaint := by
  unfold bite at failed
  split at failed
  · cases failed
  split at failed
  · cases failed
  split at failed
  · cases failed
  split at failed
  · rename_i digit
    have rejects : _ ∧ Rejects (signed false (c :: cs)) e.complaint := rejects_of_biteNumber digit failed
    exact rejects
  split at failed
  · rename_i sign
    simp only [Bool.and_eq_true, beq_iff_eq] at sign
    obtain ⟨rfl, ahead⟩ := sign
    cases cs with
    | nil => cases ahead
    | cons d tail =>
      have rejects : _ ∧ Rejects (signed true (d :: tail)) e.complaint := rejects_of_biteNumber ahead failed
      exact rejects
  · exact rejects_of_biteText failed

theorem Takes.exists_taken {offset : Nat} {cs : List Char} {b : Bite} (takes : Takes offset cs b) :
    ∃ taken, cs = taken ++ b.rest ∧ b.offset = offset + utf8Len taken := by
  cases takes with
  | gap skipped rest => exact ⟨skipped, rfl, rfl⟩
  | @word kind word isWord noCross rest => exact ⟨word, rfl, rfl⟩
  | @size value word cross digit isWord isCross isDigit rest =>
    have one : utf8Len [cross] = 1 := by rcases isCross with rfl | rfl <;> rfl
    refine ⟨word ++ [cross], by simp, ?_⟩
    rw [String.utf8Len_append, one, Nat.add_assoc]

theorem rejects_of_lexFrom {read : Array Token} {offset : Nat} {cs : List Char} {e : SyntaxError}
    (failed : lexFrom read offset cs = .error e) :
    ∃ before after, cs = before ++ after ∧ e.offset = offset + utf8Len before ∧ Rejects after e.complaint := by
  fun_induction lexFrom read offset cs with
  | case1 => cases failed
  | case2 read offset c cs other bitten =>
    cases failed
    obtain ⟨here, rejects⟩ := rejects_of_bite bitten
    exact ⟨[], c :: cs, rfl, here, rejects⟩
  | case3 read offset c cs b bitten shorter ih =>
    obtain ⟨before, after, behind, there, rejects⟩ := ih failed
    obtain ⟨taken, split, here⟩ := (takes_of_bite bitten).exists_taken
    refine ⟨taken ++ before, after, ?_, ?_, rejects⟩
    · rw [split, behind, List.append_assoc]
    · rw [there, here, String.utf8Len_append, Nat.add_assoc]

/-- The lexer complains where what it rejects begins. -/
theorem rejects_of_lex {text : String} {e : SyntaxError} (failed : lex text = .error e) :
    ∃ before after, text.toList = before ++ after ∧ e.offset = utf8Len before ∧ Rejects after e.complaint := by
  unfold lex at failed
  cases isLexed : lexFrom #[] 0 text.toList with
  | ok all =>
    rw [isLexed] at failed
    cases failed
  | error other =>
    rw [isLexed] at failed
    cases failed
    obtain ⟨before, after, split, there, rejects⟩ := rejects_of_lexFrom isLexed
    exact ⟨before, after, split, there.trans (Nat.zero_add _), rejects⟩

end TextureLoom.Source
