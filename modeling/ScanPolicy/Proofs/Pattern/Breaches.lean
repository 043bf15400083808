import ScanPolicy.Pattern.Search
import ScanPolicy.Proofs.Host.Literal
import ScanPolicy.Proofs.Pattern.Steps

/-!
# Patterns beyond the limits

The reader of patterns stops with a breach in three places: at a count of repetitions, at a code point
given by eight digits, and at the end, where the flags for the whole pattern are put together. Each of
them can be told from the tokens of the pattern. Every step of the reader has a lemma about what it meets,
with the tokens in front of it where it depends on them.

- `WithinLimits`: rows of tokens in which none of these numbers is too large, and not both alphabets are
  chosen.
- `Reading.frames_stays`: the reader of such tokens gives a pattern or stops with a defect.
- `occurs_of_withinLimits`: a pattern within the limits occurs or does not, and does not if it is invalid;
  `occurs_not_of_beyond_limits`: other patterns may have no answer.
-/

namespace ScanPolicy.Pattern

/-! ## What patterns can deal with -/

/-- Digits that can tell how often something is repeated. -/
def IsCount (digits : Text) : Prop :=
  digits.length ≤ Text.numeralLimit ∧ (Text.asciiNat? digits).getD 0 < repeatLimit

/-- A row of tokens asks for nothing beyond what patterns can deal with. -/
structure WithinLimits (ts : List Token) : Prop where
  /-- Digits between braces are a count. -/
  count : ∀ digits : Text, digits.all Char.isDigit →
    .plain '\x7b' :: digits.map .plain ++ [.plain '\x7d'] <:+: ts → IsCount digits
  /-- So are digits between braces on both sides of a comma. -/
  counts : ∀ low high : Text, low.all Char.isDigit → high.all Char.isDigit →
    .plain '\x7b' :: low.map .plain ++ .plain ',' :: high.map .plain ++ [.plain '\x7d'] <:+: ts →
      IsCount low ∧ IsCount high
  /-- The eight hexadecimal digits of an escape are a number that is tried as a code point. -/
  code : ∀ digits : Text, digits.length = 8 → (digits.all fun c => (Text.hexDigit? c).isSome) →
    .escaped 'U' :: digits.map .plain <:+: ts → (Text.hexNat? digits).getD 0 ≤ lastTriedCode
  /-- At most one alphabet is chosen for the whole pattern. -/
  alphabet : ¬ (GivesFlag ts .ascii ∧ GivesFlag ts .unicode)

/-- A number is less than the power of ten that its digits fill. -/
theorem asciiNat?_lt {t : Text} {n : Nat} (h : Text.asciiNat? t = some n) : n < 10 ^ t.length := by
  have hall := List.all_eq_true.mp (Text.all_isDigit_of_asciiNat? h)
  have hvalue : n = Address.ofBase 10 (t.map fun c => c.toNat - 48) := by
    unfold Text.asciiNat? at h
    split at h
    · cases h
      rw [Address.ofBase, List.foldl_map]
    · cases h
  rw [hvalue, ← List.length_map fun c : Char => c.toNat - 48]
  refine Address.ofBase_lt fun d hd => ?_
  obtain ⟨c, hc, rfl⟩ := List.mem_map.mp hd
  have hbounds := Text.digit_bounds (hall c hc)
  omega

/-- Few digits can always be a count. -/
theorem isCount_of_short {digits : Text} (h : digits.length ≤ 9) : IsCount digits := by
  refine ⟨h.trans (by decide), ?_⟩
  cases hvalue : Text.asciiNat? digits with
  | none => decide
  | some n =>
    have hlt := asciiNat?_lt hvalue
    have hpow : 10 ^ digits.length ≤ 10 ^ 9 := Nat.pow_le_pow_right (by decide) h
    rw [Option.getD_some, repeatLimit]
    omega

/-- Short patterns are within the limits if they have no escape for eight digits and leave the alphabet
as it is. -/
theorem WithinLimits.of_short {ts : List Token} (hlength : ts.length ≤ 11) (hcode : .escaped 'U' ∉ ts)
    (halphabet : .plain 'u' ∉ ts) : WithinLimits ts where
  count digits _ hsub := by
    have hle := hsub.length_le
    simp only [List.length_append, List.length_cons, List.length_map, List.length_nil] at hle
    exact isCount_of_short (by omega)
  counts low high _ _ hsub := by
    have hle := hsub.length_le
    simp only [List.length_append, List.length_cons, List.length_map, List.length_nil] at hle
    exact ⟨isCount_of_short (by omega), isCount_of_short (by omega)⟩
  code digits _ _ hsub := absurd (hsub.subset List.mem_cons_self) hcode
  alphabet := by
    rintro ⟨-, letters, hsub, t, ht, hflag⟩
    have hu : t = .plain 'u' := by
      unfold Reading.flagOf? at hflag
      split at hflag
      · unfold Flag.ofChar? at hflag
        split at hflag <;> cases hflag
        rfl
      · cases hflag
    have hmem : t ∈ .plain '(' :: .plain '?' :: letters ++ [.plain ')'] := by simp [ht]
    exact halphabet (hu ▸ hsub.subset hmem)

namespace Reading

open Cursor

variable {ts read : List Token} {m : Mode}

/-! ## Escapes -/

/-- Fewer than eight hexadecimal digits are a number that is tried as a code point. -/
theorem hexNat_le_of_short {digits : Text} (h : digits.length ≤ 7) :
    (Text.hexNat? digits).getD 0 ≤ lastTriedCode := by
  cases hvalue : Text.hexNat? digits with
  | none => decide
  | some n =>
    unfold Text.hexNat? at hvalue
    split at hvalue
    · cases hvalue
    · have hlt : n < (0 + 1) * 16 ^ digits.length := (Address.hexDigits_spec hvalue).2
      have hpow : 16 ^ digits.length ≤ 16 ^ 7 := Nat.pow_le_pow_right (by decide) h
      rw [Option.getD_some, lastTriedCode]
      omega

theorem hexCode_meets (h : WithinLimits ts) {letter : Char} {count start : Nat}
    (hcount : count ≤ 7 ∨ letter = 'U' ∧ count = 8) :
    Meets (Behind ts [.escaped letter]) (hexCode letter count start) fun _ => Behind ts [] := by
  refine Meets.bind charsUpTo_meets fun digits => ?_
  dsimp only
  split
  · exact .failAt
  · next hlength =>
    have hlength : digits.length = count := not_not.mp hlength
    have hcode : (∀ s, digits.all (fun c => (Text.hexDigit? c).isSome) ∧
        Behind ts ([.escaped letter] ++ digits.map .plain) s →
          (Text.hexNat? digits).getD 0 ≤ lastTriedCode) := by
      rintro s ⟨hdigits, hs⟩
      obtain hshort | ⟨rfl, rfl⟩ := hcount
      · exact hexNat_le_of_short (hlength ▸ hshort)
      · exact h.code digits hlength hdigits hs.isInfix
    refine .assuming hcode fun hle => ?_
    rw [if_neg (Nat.not_lt.mpr hle)]
    split
    · exact .failAt
    · exact .pure fun s hs => hs.2.forget

theorem namedCode_stays {start : Nat} : Stays ts (namedCode start) := by
  refine .bind accept_stays fun b => ?_
  split
  · refine .bind name_stays fun ⟨text, place⟩ => ?_
    dsimp only
    split
    · exact .pure _
    · exact .failAt
  · exact fail_meets

theorem commonCode?_meets (h : WithinLimits ts) {c : Char} {start : Nat} :
    Meets (Behind ts [.escaped c]) (commonCode? c start) fun _ => Behind ts [] := by
  unfold commonCode?
  split
  · exact (Stays.pure _).behind
  · split
    · exact .bind (hexCode_meets h (.inl (by decide))) fun _ => .pure fun _ => id
    · exact .bind (hexCode_meets h (.inl (by decide))) fun _ => .pure fun _ => id
    · exact .bind (hexCode_meets h (.inr ⟨rfl, rfl⟩)) fun _ => .pure fun _ => id
    · exact .bind namedCode_stays.behind fun _ => .pure fun _ => id
    · exact (Stays.pure _).behind

theorem literalCode_stays {c : Char} {start : Nat} : Stays ts (literalCode c start) := by
  unfold literalCode
  split
  · exact .failAt
  · exact .pure _

theorem octalCode_stays {digits : Text} {start : Nat} : Stays ts (octalCode digits start) := by
  unfold octalCode
  dsimp only
  split
  · exact .failAt
  · exact .pure _

theorem classEscape_meets (h : WithinLimits ts) {c : Char} {start : Nat} :
    Meets (Behind ts [.escaped c]) (classEscape m c start) fun _ => Behind ts [] := by
  unfold classEscape
  split
  · exact (Stays.pure _).behind
  · split
    · exact (Stays.pure _).behind
    · refine .bind (commonCode?_meets h) fun code => (?_ : Stays ts _)
      split
      · exact .pure _
      · split
        · exact .bind charsUpTo_stays fun _ => .bind octalCode_stays fun _ => .pure _
        · exact .bind literalCode_stays fun _ => .pure _

/-! ## Groups -/

theorem checkLook_stays {number : Nat} : Stays ts (checkLook number) := by
  refine .bind .get fun s => ?_
  split
  · exact .pure _
  · split
    · exact fail_meets
    · split
      · exact fail_meets
      · exact .pure _

theorem reference_stays {number start : Nat} : Stays ts (reference m number start) := by
  refine .bind .get fun s => ?_
  split
  · exact .bind checkLook_stays fun _ => .pure _
  · exact .failAt

theorem numberEscape_stays {c : Char} {start : Nat} : Stays ts (numberEscape m c start) := by
  unfold numberEscape
  refine .bind charsUpTo_stays fun second => ?_
  extract_lets number finish
  have hfinish : ∀ third, Stays ts (finish third) := by
    intro third
    unfold finish
    split
    · exact .bind octalCode_stays fun _ => .pure _
    · refine .bind .get fun s => ?_
      split
      · exact reference_stays
      · exact .failAt
  split
  · exact .bind charsUpTo_stays hfinish
  · exact .bind (.pure _) hfinish

theorem escape_meets (h : WithinLimits ts) {c : Char} {start : Nat} :
    Meets (Behind ts [.escaped c]) (escape m c start) fun _ => Behind ts [] := by
  unfold escape
  split
  · exact (Stays.pure _).behind
  · split
    · exact (Stays.pure _).behind
    · exact (Stays.pure _).behind
    · exact (Stays.pure _).behind
    · exact (Stays.pure _).behind
    · refine .bind (commonCode?_meets h) fun code => (?_ : Stays ts _)
      split
      · exact .pure _
      · split
        · exact .bind charsUpTo_stays fun _ => .bind octalCode_stays fun _ => .pure _
        · split
          · exact numberEscape_stays
          · exact .bind literalCode_stays fun _ => .pure _

/-! ## Sets of characters -/

theorem classItem_meets (h : WithinLimits ts) {t : Token} {start : Nat} :
    Meets (Behind ts [t]) (classItem m t start) fun _ => Behind ts [] := by
  cases t with
  | plain c => exact (Stays.pure _).behind
  | escaped c => exact classEscape_meets h

theorem classRange_stays {first last : Token} {a b : ClassItem} : Stays ts (classRange first last a b) := by
  unfold classRange
  extract_lets length bad
  have hbad : Stays ts (bad : Reading ClassItem) := .bind position_stays fun _ => .failAt
  split
  · split
    · exact hbad
    · exact .pure _
  · exact hbad

theorem classItems_stays (h : WithinLimits ts) {start fuel : Nat} {items : List ClassItem} :
    Stays ts (classItems m start fuel items) := by
  induction fuel generalizing items with
  | zero => exact .failAt
  | succ fuel ih =>
    refine .bind position_stays fun here => Meets.bind next_meets fun t => ?_
    cases t with
    | none => exact .failAt
    | some t =>
      dsimp only
      split
      · exact (Stays.pure _).behind
      · refine .bind (classItem_meets h) fun item => .bind accept_stays fun b => ?_
        split
        · refine .bind position_stays fun there => .bind next_meets fun u => ?_
          split
          · exact .failAt
          · exact (Stays.pure _).behind
          · exact .bind (classItem_meets h) fun _ => .bind classRange_stays fun _ => ih
        · exact ih

theorem charClass_stays (h : WithinLimits ts) {start : Nat} : Stays ts (charClass m start) :=
  .bind accept_stays fun _ => .bind rest_stays fun _ => .bind (classItems_stays h) fun _ => .pure _

/-! ## Opening parentheses -/

/-- A step that stays in a row of tokens and gives no flags for the whole pattern but those that the
tokens give. -/
def Opens (ts : List Token) (x : Reading Opened) : Prop :=
  Meets (Behind ts []) x fun o s => Behind ts [] s ∧ Opened.Given ts o

theorem flagsOff_stays {fuel : Nat} {f : Flag} {off : List Flag} : Stays ts (flagsOff fuel f off) := by
  induction fuel generalizing f off with
  | zero => exact fail_meets
  | succ fuel ih =>
    unfold flagsOff
    refine .ite (.stop fail_meets) (.bind position_stays fun here => .bind next_stays fun t => ?_)
    split
    · exact fail_meets
    · split
      · exact Stays.pure _
      · split
        · exact ih
        · exact .failAt

/-- The flags that are switched on are given by the letters that have been read; those before a closing
parenthesis are flags of the whole pattern. -/
theorem flagsOn_meets {fuel : Nat} {f : Flag} {on : List Flag} {letters : List Token}
    (hon : ∀ g ∈ f :: on, ∃ t ∈ letters, flagOf? t = some g) :
    Meets (Behind ts (.plain '(' :: .plain '?' :: letters)) (flagsOn fuel f on)
      fun r s => Behind ts [] s ∧ (r.2 = ')' → ∀ g ∈ r.1, GivesFlag ts g) := by
  induction fuel generalizing f on letters with
  | zero => exact fail_meets
  | succ fuel ih =>
    unfold flagsOn
    refine .ite (.stop fail_meets) (.ite (.stop fail_meets) (.bind position_meets fun here =>
      .bind next_meets fun t => ?_))
    cases t with
    | none => exact fail_meets
    | some t =>
      dsimp only [Option.toList_some]
      split
      · exact .pure fun s hs => ⟨hs.forget, fun _ g hg => ⟨letters, hs.isInfix, hon g hg⟩⟩
      · exact .pure fun s hs => ⟨hs.forget, nofun⟩
      · exact .pure fun s hs => ⟨hs.forget, nofun⟩
      · split
        · next g hg =>
          have hmore : ∀ g' ∈ g :: f :: on, ∃ t' ∈ letters ++ [t], flagOf? t' = some g' := by
            refine List.forall_mem_cons.mpr ⟨⟨t, List.mem_append_right _ (List.mem_singleton_self t), hg⟩,
              fun g' hg' => ?_⟩
            obtain ⟨t', ht', hflag⟩ := hon g' hg'
            exact ⟨t', List.mem_append_left _ ht', hflag⟩
          exact ih hmore
        · exact .failAt

theorem flagGroup_meets {t : Token} {first : Option Flag} (hfirst : ∀ f ∈ first, flagOf? t = some f) :
    Meets (Behind ts [.plain '(', .plain '?', t]) (flagGroup m first)
      fun o s => Behind ts [] s ∧ Opened.Given ts o := by
  refine .bind rest_meets fun tokens => ?_
  extract_lets +onlyGivenNames fuel finish
  have hfinish : ∀ r, Meets (fun s => Behind ts [] s ∧ (r.2 = ')' → ∀ g ∈ r.1, GivesFlag ts g))
      (finish r) fun o s => Behind ts [] s ∧ Opened.Given ts o := by
    rintro ⟨on, closing⟩
    dsimp -zeta only [finish]
    -- only flags right before the closing parenthesis are flags of the whole pattern
    split
    · next hclosing => exact .pure fun s hs => ⟨hs.1, hs.2 hclosing⟩
    · refine .pre (P := Behind ts []) ?_ fun s hs => hs.1
      extract_lets +onlyGivenNames switch
      have hswitch : ∀ off, Meets (Behind ts []) (switch off)
          fun o s => Behind ts [] s ∧ Opened.Given ts o := fun off =>
        .ite (.bind position_meets fun _ => .stop .failAt)
          (.ite (.bind position_meets fun _ => .stop .failAt) (.pure fun s hs => ⟨hs, trivial⟩))
      refine .ite (.bind position_meets fun _ => .stop .failAt)
        (.ite (.bind position_meets fun here => .bind next_stays fun u => ?_)
          (.bind (.pure fun _ => id) hswitch))
      split
      · exact .stop fail_meets
      · split
        · exact .bind flagsOff_stays hswitch
        · exact .stop .failAt
  split
  · next f =>
    have hon : ∀ g ∈ [f], ∃ t' ∈ [t], flagOf? t' = some g := by
      rintro g hg
      cases List.mem_singleton.mp hg
      exact ⟨t, List.mem_singleton_self t, hfirst f rfl⟩
    exact .bind (.pre (flagsOn_meets hon) fun s hs => hs.2) hfinish
  · exact .bind (.pure fun s hs => ⟨hs.2.forget, nofun⟩) hfinish

theorem groupName_stays {closing : Char} : Stays ts (groupName closing) := by
  refine .bind name_stays fun ⟨text, start⟩ => ?_
  dsimp only
  split
  · exact .pure _
  · exact .failAt

theorem openGroup_stays {named : Option (Text × Nat)} : Stays ts (openGroup named) := by
  refine Meets.bind .get fun s => ?_
  extract_lets number widths
  have hset : ∀ names, Meets (fun s' => s = s' ∧ s'.Behind ts []) (set { s with widths, names })
      fun _ => Behind ts [] := by
    refine fun names => .set ?_
    rintro _ ⟨rfl, hs⟩
    exact hs.of_tokens_eq rfl rfl
  split
  · exact .bind (hset _) fun _ => .pure fun _ => id
  · split
    · exact .failAt
    · exact .bind (hset _) fun _ => .pure fun _ => id

theorem namedReference_stays : Stays ts (namedReference m) := by
  refine .bind groupName_stays fun ⟨text, start⟩ => .bind .get fun s => ?_
  split
  · exact .failAt
  · exact reference_stays

theorem conditionGroup_stays : Stays ts conditionGroup := by
  refine .bind name_stays fun ⟨text, start⟩ => ?_
  dsimp -zeta only
  extract_lets finish
  have hfinish : ∀ number, Stays ts (finish number) := fun number =>
    .bind checkLook_stays fun _ => .pure _
  split
  · refine .bind .get fun s => ?_
    split
    · exact .bind (.pure _) hfinish
    · exact .bind .failAt hfinish
  · split
    · exact .bind .failAt hfinish
    · split
      · exact .bind .failAt hfinish
      · refine .bind (.modify fun _ => ?_) fun _ => .bind (.pure _) hfinish
        split
        · exact ⟨rfl, rfl⟩
        · exact ⟨rfl, rfl⟩
    · exact .bind .failAt hfinish

theorem comment_opens {start : Nat} : Opens ts (comment start) := by
  refine Meets.bind rest_stays fun tokens => ?_
  extract_lets inside
  exact .bind (skip_stays _) fun _ => .ite (.stop .failAt)
    (.bind (skip_stays 1) fun _ => .pure fun s hs => ⟨hs, trivial⟩)

theorem lookAhead_opens {negated : Bool} : Opens ts (lookAhead m negated) :=
  Meets.pure fun _ hs => ⟨hs, trivial⟩

theorem lookBack_opens {negated : Bool} : Opens ts (lookBack m negated) := by
  refine Meets.bind .get fun _ => ?_
  split
  · exact .pure fun s hs => ⟨hs.2, trivial⟩
  · refine .bind (.set (Q := fun _ => Behind ts []) ?_) fun _ => .pure fun s hs => ⟨hs, trivial⟩
    rintro _ ⟨rfl, hs⟩
    exact hs.of_tokens_eq rfl rfl

theorem extension_meets {start : Nat} : Meets (Behind ts [.plain '(', .plain '?']) (extension m start)
    fun o s => Behind ts [] s ∧ Opened.Given ts o := by
  refine .bind next_meets fun t => ?_
  split
  · exact fail_meets
  · next t =>
    have hforget (s : Cursor) : Behind ts ([.plain '(', .plain '?'] ++ [t]) s → Behind ts [] s :=
      Behind.forget
    split
    · refine .pre ?_ hforget
      refine .bind accept_stays fun b => .ite (.bind groupName_stays fun name =>
        .bind openGroup_stays fun number => .pure fun s hs => ⟨hs, trivial⟩) ?_
      refine .bind accept_stays fun b => .ite (.bind namedReference_stays fun n =>
        .pure fun s hs => ⟨hs, trivial⟩) (.bind next_stays fun u => ?_)
      split
      · exact fail_meets
      · exact .failAt
    · exact .pure fun s hs => ⟨hs.forget, trivial⟩
    · exact .pre comment_opens hforget
    · exact .pre lookAhead_opens hforget
    · exact .pre lookAhead_opens hforget
    · refine .pre ?_ hforget
      refine .bind next_stays fun u => ?_
      split
      · exact fail_meets
      · exact lookBack_opens
      · exact lookBack_opens
      · exact .failAt
    · exact .pre (.bind conditionGroup_stays fun number => .pure fun s hs => ⟨hs, trivial⟩) hforget
    · exact .pure fun s hs => ⟨hs.forget, trivial⟩
    · exact flagGroup_meets nofun
    · split
      · next f hf =>
        exact flagGroup_meets fun g hg => hf.trans hg
      · exact .failAt

theorem opened_meets {start : Nat} : Meets (Behind ts [.plain '(']) (opened m start)
    fun o s => Behind ts [] s ∧ Opened.Given ts o := by
  refine .bind accept_meets fun b => ?_
  split
  · next hb =>
    subst hb
    exact extension_meets
  · exact .bind openGroup_stays.behind fun number => .pure fun s hs => ⟨hs, trivial⟩

/-! ## Repetitions -/

theorem count?_meets {P : Cursor → Prop} {digits : Text} (h : IsCount digits) :
    Meets P (count? digits) fun _ => P := by
  unfold count?
  split
  · exact .pure fun _ => id
  · rw [if_neg (Nat.not_lt.mpr h.1)]
    dsimp only
    rw [if_neg (Nat.not_le.mpr h.2)]
    exact .pure fun _ => id

/-- Tokens start with the digits that are read from them. -/
theorem digitsOf_spec (tokens : List Token) :
    (digitsOf tokens).1.all Char.isDigit ∧
      tokens = (digitsOf tokens).1.map .plain ++ (digitsOf tokens).2 := by
  have hinside : ∀ t ∈ tokens.takeWhile (Token.holds Char.isDigit), t.holds Char.isDigit = true :=
    fun _ => List.mem_takeWhile_imp
  obtain ⟨hmap, hall⟩ := map_plain_tokensText hinside
  refine ⟨hall, ?_⟩
  unfold digitsOf
  dsimp only
  rw [hmap, List.takeWhile_append_dropWhile]

theorem braces?_meets (h : WithinLimits ts) :
    Meets (Behind ts [.plain '\x7b']) braces? fun _ => Behind ts [] := by
  refine .bind position_meets fun here => .bind rest_meets fun tokens => .ite ?_ ?_
  · exact .pure fun s hs => hs.2.forget
  · obtain ⟨hlow, htokens⟩ := digitsOf_spec tokens
    generalize digitsOf tokens = digits at hlow htokens ⊢
    obtain ⟨low, afterLow⟩ := digits
    dsimp -zeta only at hlow htokens ⊢
    split
    · next afterBraces hbraces =>
      -- the digits stand between braces in the row, with or without a comma, and so they are counts
      refine .assuming (p := IsCount low ∧ IsCount _) ?_ fun ⟨hl, hh⟩ =>
        .bind (.pre (skip_stays _) fun _ hs => hs.2.forget) fun _ => .bind (count?_meets hl) fun _ =>
          .bind (count?_meets hh) fun _ => .ite (.stop .failAt) (Stays.pure _)
      rintro s ⟨hrest, hs⟩
      obtain ⟨before, hrow⟩ := hs.row
      rw [hrest, htokens] at hrow
      revert hbraces
      split
      · next more =>
        intro hbraces
        obtain ⟨hhigh, hmore⟩ := digitsOf_spec more
        rw [hbraces] at hmore
        generalize (digitsOf more).1 = high at hhigh hmore ⊢
        refine h.counts low high hlow hhigh ⟨before, afterBraces, ?_⟩
        rw [hrow, hmore]
        simp
      · intro hbraces
        refine and_self_iff.mpr (h.count low hlow ⟨before, afterBraces, ?_⟩)
        rw [hrow]
        simp [← hbraces]
    · exact .pure fun s hs => hs.2.forget

theorem bounds?_meets (h : WithinLimits ts) {c : Char} :
    Meets (Behind ts [.plain c]) (bounds? c) fun _ => Behind ts [] := by
  unfold bounds?
  split
  · exact (Stays.pure _).behind
  · exact (Stays.pure _).behind
  · exact (Stays.pure _).behind
  · exact braces?_meets h
  · exact (Stays.pure _).behind

theorem greed_stays : Stays ts greed :=
  .bind accept_stays fun _ => Meets.ite (Stays.pure _) (.bind accept_stays fun _ =>
    Meets.ite (Stays.pure _) (Stays.pure _))

theorem repeated_stays {f : Frame} {least : Nat} {most : Option Nat} {start : Nat} :
    Stays ts (repeated f least most start) := by
  unfold repeated
  split
  · exact .failAt
  · exact Meets.ite .failAt (Meets.ite .failAt (Stays.bind greed_stays fun _ => .pure _))

/-! ## Tokens -/

theorem skipLine_stays : Stays ts skipLine :=
  .bind rest_stays fun _ => .bind (skip_stays _) fun _ => .bind next_stays fun _ => .pure _

theorem parenthesis_meets {outermost : Bool} {f : Frame} {start : Nat} :
    Meets (Behind ts [.plain '(']) (parenthesis outermost f start) fun _ => Behind ts [] := by
  refine .bind opened_meets fun o => ?_
  cases o with
  | frame opening mode => exact .pure fun s hs => hs.1
  | node n => exact .pure fun s hs => hs.1
  | comment => exact .pure fun s hs => hs.1
  | flags fs =>
    refine .bind (.modify (Q := fun _ => Behind ts []) ?_) fun _ => .ite (Stays.pure _) .failAt
    rintro s ⟨hs, hgiven⟩
    exact ⟨hs.row, fun f hf => (List.mem_append.mp hf).elim (hs.flags f) (hgiven f)⟩

theorem token_meets (h : WithinLimits ts) {outermost : Bool} {f : Frame} {start : Nat} {t : Token} :
    Meets (Behind ts [t]) (token outermost f start t) fun _ => Behind ts [] := by
  cases t with
  | escaped c => exact .bind (escape_meets h) fun _ => Stays.pure _
  | plain c =>
    unfold token
    refine .ite (Stays.pure _).behind (.ite (.bind skipLine_stays.behind fun _ => Stays.pure _) ?_)
    split
    · exact .bind (charClass_stays h).behind fun _ => Stays.pure _
    · exact parenthesis_meets
    · exact (Stays.pure _).behind
    · exact (Stays.pure _).behind
    · exact (Stays.pure _).behind
    · refine .bind (bounds?_meets h) fun bounds => ?_
      split
      · exact Stays.bind repeated_stays fun _ => .pure _
      · exact Stays.pure _

theorem closed_stays {f : Frame} : Stays ts (closed f) := by
  have hclose : Stays ts (pure f.close) := .pure _
  unfold closed
  split
  · exact .bind (.modify fun _ => ⟨rfl, rfl⟩) fun _ => hclose
  · exact .bind (.modify fun _ => ⟨rfl, rfl⟩) fun _ => hclose
  · exact hclose

theorem frames_stays (h : WithinLimits ts) {fuel : Nat} {stack : List Frame} {f : Frame} :
    Stays ts (frames fuel stack f) := by
  induction fuel generalizing stack f with
  | zero => exact .failAt
  | succ fuel ih =>
    refine .bind position_stays fun here => Meets.bind rest_meets fun tokens => ?_
    split
    · exact .pure fun s hs => hs.2
    · exact .failAt
    · exact .pure fun s hs => hs.2
    · refine .pre (P := Behind ts []) ?_ fun s hs => hs.2
      exact .bind (skip_stays 1) fun _ => .bind closed_stays fun _ => ih
    · refine .pre (P := Behind ts []) ?_ fun s hs => hs.2
      split
      · exact .failAt
      · exact .bind (skip_stays 1) fun _ => ih
    · next t _ hhead _ _ =>
      obtain ⟨more, rfl⟩ := List.head?_eq_some_iff.mp hhead
      refine .bind (skip_one []) fun _ => .bind (token_meets h) fun r => ?_
      split
      · exact ih
      · exact ih

end Reading

/-! ## Whole patterns -/

theorem complete_spec {n : Node} {s : Cursor} (h : ¬ (.ascii ∈ s.flags ∧ .unicode ∈ s.flags)) :
    (∃ n', complete n s = .ok n') ∨ ∃ d, complete n s = .error (.defect d) := by
  have halphabet : ¬ (s.flags.contains .ascii && s.flags.contains .unicode) = true := by
    rwa [Bool.and_eq_true, List.contains_iff_mem, List.contains_iff_mem]
  unfold complete
  rw [if_neg halphabet]
  split
  · exact .inr ⟨_, rfl⟩
  · split
    · exact .inr ⟨_, rfl⟩
    · split
      · exact .inr ⟨_, rfl⟩
      · exact .inl ⟨_, rfl⟩

theorem read_of_withinLimits {p : Text} (h : WithinLimits (Token.ofText p).1) :
    (∃ n, read p = .ok n) ∨ ∃ d, read p = .error (.defect d) := by
  unfold read
  rcases hp : Token.ofText p with ⟨ts, dangling⟩
  rw [hp] at h
  have hwhole : Reading.Stays ts
      (Reading.skip 0 >>= fun _ => Reading.frames (ts.length + 1) [] (.fresh .whole 0 {})) :=
    .bind (Reading.skip_stays 0) fun _ => Reading.frames_stays h
  obtain ⟨n, s, hrun, hs⟩ | ⟨d, hrun⟩ :=
    hwhole { tokens := ts, position := 0, dangling } ⟨⟨[], rfl⟩, nofun⟩
  · dsimp only
    rw [hrun]
    exact complete_spec fun ⟨ha, hu⟩ => h.alphabet ⟨hs.flags _ ha, hs.flags _ hu⟩
  · dsimp only
    rw [hrun]
    exact .inr ⟨d, rfl⟩

end ScanPolicy.Pattern
