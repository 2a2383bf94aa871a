import TextureLoom.Proofs.Pipeline.Nesting
import TextureLoom.Proofs.Pipeline.Respelling

set_option autoImplicit false

namespace TextureLoom.Source

open String (utf8Len)

/-- The text that a token was read from. -/
def Token.source (text : String) (token : Token) : String := String.Pos.Raw.extract text ⟨token.start⟩ ⟨token.stop⟩

/-- What a token is read as where it stands alone: a cross is a name then. -/
def Kind.alone (written : String) : Kind → Kind
  | .cross => .ident written
  | kind => kind

/-- The tokens with one space between each two. -/
def respaced (text : String) (tokens : List Token) : String := " ".intercalate (tokens.map (Token.source text))

theorem Kind.alone_of_ne {written : String} {kind : Kind} (noCross : kind ≠ .cross) : kind.alone written = kind := by
  cases kind <;> first | rfl | exact absurd rfl noCross

theorem source_of_split {kind : Kind} {before word rest : List Char} :
    Token.source (String.ofList (before ++ word ++ rest)) ⟨kind, utf8Len before, utf8Len before + utf8Len word⟩ =
      String.ofList word :=
  String.extract_of_valid before word rest

/-- A token's text is a word by itself. -/
structure Written (text : String) (token : Token) : Prop where
  isWord : IsWord (token.kind.alone (token.source text)) (token.source text).toList
  ofCross : token.kind = .cross → token.source text = "x" ∨ token.source text = "X"

section

variable {before word rest : List Char}

theorem written_of_isWord {kind : Kind} (isWord : IsWord kind word) (noCross : kind ≠ .cross) :
    Written (String.ofList (before ++ word ++ rest)) ⟨kind, utf8Len before, utf8Len before + utf8Len word⟩ := by
  refine ⟨?_, fun cross => absurd cross noCross⟩
  rw [source_of_split, String.toList_ofList, Kind.alone_of_ne noCross]
  exact isWord

theorem written_of_cross {c : Char} (isCross : c = 'x' ∨ c = 'X') :
    Written (String.ofList (before ++ [c] ++ rest)) ⟨.cross, utf8Len before, utf8Len before + 1⟩ := by
  have size : utf8Len [c] = 1 := by rcases isCross with rfl | rfl <;> rfl
  have starts : startsName c := by rcases isCross with rfl | rfl <;> rfl
  rw [← size]
  refine ⟨?_, fun _ => ?_⟩
  · rw [source_of_split, String.toList_ofList]
    exact isWord_name starts fun d member => nomatch member
  · rw [source_of_split]
    rcases isCross with rfl | rfl
    · exact .inl rfl
    · exact .inr rfl

end

theorem written_of_lexes {offset : Nat} {cs : List Char} {tokens : List Token} (lexes : Lexes offset cs tokens) :
    ∀ before, utf8Len before = offset → ∀ t ∈ tokens, Written (String.ofList (before ++ cs)) t := by
  induction lexes with
  | finish => exact fun before _ t member => nomatch member
  | @gap offset rest tokens skipped lexes ih =>
    intro before atOffset
    rw [← List.append_assoc]
    apply ih
    rw [String.utf8Len_append, atOffset]
  | @word offset kind word rest tokens isWord noCross lexes ih =>
    rintro before rfl t member
    rw [← List.append_assoc]
    rcases List.mem_cons.mp member with rfl | later
    · exact written_of_isWord isWord noCross
    · exact ih (before ++ word) (String.utf8Len_append ..) t later
  | @size offset width height word rest cross start stop tokens isWord isCross lexes ih =>
    rintro before rfl t member
    have one : utf8Len [cross] = 1 := by rcases isCross with rfl | rfl <;> rfl
    have split : before ++ (word ++ cross :: rest) = before ++ word ++ [cross] ++ rest := by simp
    rcases List.mem_cons.mp member with rfl | member
    · rw [← List.append_assoc]
      exact written_of_isWord isWord (by simp)
    rw [split]
    rcases List.mem_cons.mp member with rfl | later
    · rw [← String.utf8Len_append]
      exact written_of_cross isCross
    · apply ih (before ++ word ++ [cross]) _ t later
      rw [String.utf8Len_append, String.utf8Len_append, one]

/-- Words with a space between each two are lexed one by one. -/
theorem lexFrom_words {words : List (Kind × List Char)} (each : ∀ word ∈ words, IsWord word.1 word.2) :
    ∀ (read : Array Token) (offset : Nat), ∃ tokens,
      lexFrom read offset ([' '].intercalate (words.map Prod.snd)) = .ok tokens ∧
        tokens.toList.map Token.kind = read.toList.map Token.kind ++ words.map Prod.fst := by
  induction words with
  | nil =>
    intro read offset
    refine ⟨read, ?_, (List.append_nil _).symm⟩
    rw [List.map_nil, List.intercalate_nil, lexFrom]
  | cons word words ih =>
    intro read offset
    obtain ⟨c, cs, isWord, bitten⟩ := each word List.mem_cons_self
    have later := ih fun word member => each word (List.mem_cons_of_mem _ member)
    cases words with
    | nil =>
      obtain ⟨tokens, lexed, kinds⟩ := later (read ++ [Token.mk word.1 offset (offset + utf8Len word.2)])
        (offset + utf8Len word.2)
      have whole := bitten offset [] parted_nil
      rw [List.append_nil] at whole
      refine ⟨tokens, ?_, ?_⟩
      · rw [List.map_cons, List.map_nil, List.intercalate_singleton, isWord, lexFrom_cons whole]
        exact lexed
      · simpa only [Array.toList_appendList, List.map_append, List.append_assoc, List.map_cons, List.map_nil,
          List.append_nil] using kinds
    | cons next words =>
      obtain ⟨tokens, lexed, kinds⟩ := later (read ++ [Token.mk word.1 offset (offset + utf8Len word.2)])
        (offset + utf8Len word.2 + 1)
      have blank (rest : List Char) : bite (offset + utf8Len word.2) ' ' rest =
          .ok ⟨[], offset + utf8Len word.2 + 1, rest⟩ := rfl
      have parted (rest : List Char) : Parted (' ' :: rest) := fun c head => (Option.some.inj head).symm
      refine ⟨tokens, ?_, ?_⟩
      · rw [List.map_cons, List.map_cons, List.intercalate_cons_cons, List.append_assoc, List.singleton_append, isWord,
          List.cons_append, lexFrom_cons (bitten offset _ (parted _)), Bite.one, lexFrom_cons (blank _),
          Array.appendList_nil, ← List.map_cons]
        exact lexed
      · simpa only [Array.toList_appendList, List.map_append, List.append_assoc, List.map_cons, List.map_nil,
          List.singleton_append] using kinds

/-- Tokens with a space between each two are lexed as what each is alone. -/
theorem exists_lex_respaced {text : String} {tokens : List Token} (written : ∀ t ∈ tokens, Written text t) :
    ∃ again, lex (respaced text tokens) = .ok again ∧
      again.map Token.kind = tokens.map fun t => t.kind.alone (t.source text) := by
  obtain ⟨words, isWords⟩ : ∃ words : List (Kind × List Char),
      words = tokens.map fun t => (t.kind.alone (t.source text), (t.source text).toList) := ⟨_, rfl⟩
  have each : ∀ word ∈ words, IsWord word.1 word.2 := by
    intro word member
    rw [isWords] at member
    obtain ⟨t, isToken, rfl⟩ := List.mem_map.mp member
    exact (written t isToken).isWord
  obtain ⟨again, lexed, kinds⟩ := lexFrom_words each #[] 0
  refine ⟨again.toList, ?_, ?_⟩
  · rw [isWords, List.map_map] at lexed
    rw [lex, respaced, String.toList_intercalate, List.map_map]
    exact congrArg (· >>= fun all => pure all.toList) lexed
  · rw [kinds, isWords, List.map_map]
    rfl

end TextureLoom.Source

namespace TextureLoom.Pipeline

open Source

theorem respelled_of_lexes {text : String} {offset : Nat} {cs : List Char} {tokens : List Token}
    (lexes : Lexes offset cs tokens) (written : ∀ t ∈ tokens, Written text t) :
    ∀ {again : List Token}, again.map Token.kind = tokens.map (fun t => t.kind.alone (t.source text)) →
      ∀ sized, Respelled sized tokens again := by
  induction lexes with
  | finish =>
    intro again kinds sized
    obtain rfl := List.map_eq_nil_iff.mp kinds
    exact .nil
  | gap skipped lexes ih => exact ih written
  | word isWord noCross lexes ih =>
    intro again kinds sized
    obtain ⟨first, others, rfl, isFirst, kinds⟩ := List.map_eq_cons_iff.mp kinds
    have later := ih (fun t member => written t (List.mem_cons_of_mem _ member)) kinds
    exact .same (isFirst.trans (Kind.alone_of_ne noCross)) (later _)
  | size isWord _ lexes ih =>
    intro again kinds sized
    obtain ⟨first, others, rfl, isFirst, kinds⟩ := List.map_eq_cons_iff.mp kinds
    obtain ⟨second, others, rfl, isSecond, kinds⟩ := List.map_eq_cons_iff.mp kinds
    have later := ih (fun t member => written t (List.mem_cons_of_mem _ (List.mem_cons_of_mem _ member))) kinds false
    have crosses := (written _ (List.mem_cons_of_mem _ List.mem_cons_self)).ofCross rfl
    refine .same isFirst (.cross (.inl rfl) ?_ rfl later)
    rcases crosses with lower | upper
    · exact .inr (.inl (isSecond.trans (congrArg Kind.ident lower)))
    · exact .inr (.inr (isSecond.trans (congrArg Kind.ident upper)))

theorem exists_parse?_of_respelled {text other : String} {tokens again : List Token} {p : Pipeline}
    (lexed : lex text = .ok tokens) (lexedToo : lex other = .ok again) (respelled : Respelled false tokens again)
    (parsed : parse? text = .ok p) : ∃ q, parse? other = .ok q ∧ q.unplaced = p.unplaced := by
  obtain ⟨remaining, ⟨q, same, derives⟩, left⟩ := (derives_of_parse? lexed parsed).respelled respelled (by decide)
  cases left
  exact ⟨q, parse?_of_derives lexedToo derives, same⟩

/-- Blanks and comments mean nothing: the tokens of a text with a space between each two are tokens with the same
values again, but that the cross of a size comes back as a name, and the trees are the same but for offsets. -/
theorem parse?_respaced {text : String} {tokens : List Token} (lexed : lex text = .ok tokens) :
    ∃ again, lex (respaced text tokens) = .ok again ∧
      again.map Token.kind = tokens.map (fun t => t.kind.alone (t.source text)) ∧
      (∀ t ∈ tokens, t.kind = .cross → t.source text = "x" ∨ t.source text = "X") ∧
      (parse? (respaced text tokens)).toOption.map unplaced = (parse? text).toOption.map unplaced := by
  have lexes := lexes_of_lex lexed
  have written : ∀ t ∈ tokens, Written text t := by
    have writtenAll := written_of_lexes lexes [] rfl
    rwa [List.nil_append, String.ofList_toList] at writtenAll
  obtain ⟨again, lexedToo, kinds⟩ := exists_lex_respaced written
  have respelled := respelled_of_lexes lexes written kinds false
  refine ⟨again, lexedToo, kinds, fun t member => (written t member).ofCross, ?_⟩
  cases parsed : parse? text with
  | ok p =>
    obtain ⟨q, parsedToo, same⟩ := exists_parse?_of_respelled lexed lexedToo respelled parsed
    rw [parsedToo]
    exact congrArg some same
  | error e =>
    cases parsedToo : parse? (respaced text tokens) with
    | error e => rfl
    | ok q =>
      obtain ⟨p, accepted, _⟩ := exists_parse?_of_respelled lexedToo lexed respelled.symm parsedToo
      cases parsed.symm.trans accepted

/-- A size, a sign, a name with a dot in it, an escaped quote and a character of two bytes, with comments between. -/
def crowded : String := "8x16#f00// é |> x\n|>resize(w=-3,h=moss.a-1) |>over(\"\\\"é\")"

theorem parse?_respaced_crowded : ∃ tokens again, lex crowded = .ok tokens ∧
    respaced crowded tokens = "8 x 16 #f00 |> resize ( w = -3 , h = moss.a-1 ) |> over ( \"\\\"é\" )" ∧
    lex (respaced crowded tokens) = .ok again ∧
    again.map Token.kind = [.number 8, .ident "x", .number 16, .ident "#f00", .pipe, .ident "resize", .openParen,
      .ident "w", .equals, .number (-3), .comma, .ident "h", .equals, .ident "moss.a-1", .closeParen, .pipe,
      .ident "over", .openParen, .str "\"é", .closeParen] ∧
    (parse? (respaced crowded tokens)).toOption.map unplaced = (parse? crowded).toOption.map unplaced := by
  have read : (lex crowded).toOption.map (fun tokens => (respaced crowded tokens,
      tokens.map fun t => t.kind.alone (t.source crowded))) =
      some ("8 x 16 #f00 |> resize ( w = -3 , h = moss.a-1 ) |> over ( \"\\\"é\" )",
        [.number 8, .ident "x", .number 16, .ident "#f00", .pipe, .ident "resize", .openParen, .ident "w", .equals,
          .number (-3), .comma, .ident "h", .equals, .ident "moss.a-1", .closeParen, .pipe, .ident "over", .openParen,
          .str "\"é", .closeParen]) := by decide +kernel
  cases lexed : lex crowded with
  | error e =>
    rw [lexed] at read
    cases read
  | ok tokens =>
    rw [lexed] at read
    obtain ⟨written, kinds⟩ := Prod.mk.inj (Option.some.inj read)
    obtain ⟨again, lexedToo, alone, _, same⟩ := parse?_respaced lexed
    exact ⟨tokens, again, rfl, written, lexedToo, alone.trans kinds, same⟩

end TextureLoom.Pipeline
