import BehaviorTree.Proofs.Source.ParserRuns

namespace BehaviorTree.Source

open Text Text.Parser

inductive Token where
  | word (text : String)
  | arrow
  | value (value : ArgValue)
  | mark (c : Char)
  deriving DecidableEq

/-- Cuts a text into tokens, each as long as possible. A value without quotes is a token of its own where
an arrow came last. -/
def scan (pointed : Bool) : List Char → List Token
  | [] => []
  | c :: cs =>
    if isBlank c then scan pointed cs
    else if c = '#' then scan pointed (cs.dropWhile fun d => !isLineBreak d)
    else if c = '"' ∧ '"' ∈ cs then
      .value (.literal (String.ofList (unescape (cs.takeWhile fun d => d ≠ '"')))) ::
        scan false ((cs.dropWhile fun d => d ≠ '"').drop 1)
    else if pointed && isBareChar c then
      .value (.bare (String.ofList (c :: cs.takeWhile isBareChar))) ::
        scan false (cs.dropWhile isBareChar)
    else if isLetter c then
      .word (String.ofList (c :: cs.takeWhile isWordChar)) :: scan false (cs.dropWhile isWordChar)
    else if c = '<' ∧ cs.head? = some '-' then .arrow :: scan true (cs.drop 1)
    else .mark c :: scan false cs
termination_by cs => cs.length
decreasing_by
  all_goals simp only [List.length_cons, List.length_drop]
  all_goals first
    | exact Nat.lt_succ_self _
    | exact Nat.lt_succ_of_le (List.length_dropWhile_le _ _)
    | exact Nat.lt_succ_of_le ((Nat.sub_le _ _).trans (List.length_dropWhile_le _ _))
    | exact Nat.lt_succ_of_le (Nat.sub_le _ _)

section Scan

variable {c : Char} {cs rest : List Char} {pointed : Bool}

theorem scan_blank (hc : isBlank c = true) : scan pointed (c :: cs) = scan pointed cs := by
  rw [scan, if_pos hc]

theorem scan_dropWhile {q : Char → Bool} (hq : ∀ c, q c = true → isBlank c = true) (pointed : Bool)
    (cs : List Char) : scan pointed (cs.dropWhile q) = scan pointed cs := by
  induction cs with
  | nil => rfl
  | cons c cs ih =>
    by_cases hc : q c = true
    · rw [List.dropWhile_cons_of_pos hc, scan_blank (hq c hc), ih]
    · rw [List.dropWhile_cons_of_neg hc]

theorem scan_comment (pointed : Bool) (cs : List Char) :
    scan pointed ('#' :: cs) = scan pointed (cs.dropWhile fun d => !isLineBreak d) := by
  rw [scan, if_neg (by decide), if_pos rfl]

theorem scan_literal (pointed : Bool) {cs rest : List Char} (hcs : ∀ d ∈ cs, d ≠ '"') :
    scan pointed ('"' :: (cs ++ '"' :: rest)) =
      .value (.literal (String.ofList (unescape cs))) :: scan false rest := by
  have htake : (cs ++ '"' :: rest).takeWhile (fun d => d ≠ '"') = cs := by
    rw [List.takeWhile_append_of_pos (by simpa using hcs)]
    simp
  have hdrop : (cs ++ '"' :: rest).dropWhile (fun d => d ≠ '"') = '"' :: rest := by
    rw [List.dropWhile_append_of_pos (by simpa using hcs)]
    simp
  rw [scan, if_neg (by decide), if_neg (by decide), if_pos (by simp), htake, hdrop]
  rfl

theorem isBlank_of_isBareChar (hc : isBareChar c = true) : isBlank c = false := by
  simp only [isBareChar, Bool.and_eq_true, Bool.not_eq_true'] at hc
  exact hc.1

theorem ne_of_isBareChar (hc : isBareChar c = true) {d : Char} (hd : isBareChar d = false) : c ≠ d := by
  rintro rfl
  exact Bool.false_ne_true (hd.symm.trans hc)

theorem scan_bare (hc : isBareChar c = true) :
    scan true (c :: cs) =
      .value (.bare (String.ofList (c :: cs.takeWhile isBareChar))) ::
        scan false (cs.dropWhile isBareChar) := by
  have hquote : c ≠ '"' := ne_of_isBareChar hc (by decide)
  rw [scan, if_neg (by simp [isBlank_of_isBareChar hc]), if_neg (ne_of_isBareChar hc (by decide)),
    if_neg (by simp [hquote]), if_pos (by simp [hc])]

theorem scan_word (hc : isLetter c = true) :
    scan false (c :: cs) =
      .word (String.ofList (c :: cs.takeWhile isWordChar)) :: scan false (cs.dropWhile isWordChar) := by
  have hquote : c ≠ '"' := ne_of_isLetter hc (by decide)
  rw [scan, if_neg (by simp [isBlank_of_isLetter hc]), if_neg (ne_of_isLetter hc (by decide)),
    if_neg (by simp [hquote]), if_neg (by simp), if_pos hc]

theorem scan_arrow (cs : List Char) : scan false ('<' :: '-' :: cs) = .arrow :: scan true cs := by
  rw [scan]
  simp [isBlank, isSpace, isLineBreak, isLetter]

/-- The characters that are tokens of their own in a source. -/
def isMark (c : Char) : Bool := "=,()\x7b\x7d".toList.contains c

theorem scan_mark (hc : isMark c = true) (cs : List Char) :
    scan false (c :: cs) = .mark c :: scan false cs := by
  rw [scan]
  have hcases : c = '=' ∨ c = ',' ∨ c = '(' ∨ c = ')' ∨ c = '{' ∨ c = '}' := by
    simpa [isMark] using hc
  obtain rfl | rfl | rfl | rfl | rfl | rfl := hcases <;>
    simp [isBlank, isSpace, isLineBreak, isLetter]

end Scan

/-- Whatever the parser reads is the front of the text, and a row of tokens. `before` and `after` tell
whether an arrow came last. -/
def Reads {α : Type} (p : Parser α) (before after : Bool) (Q : α → List Token → Prop) : Prop :=
  ∀ cs a rest, p cs = some (a, rest) →
    rest <:+ cs ∧ ∃ tokens, scan before cs = tokens ++ scan after rest ∧ Q a tokens

/-- Whatever the parser reads are blanks and comments. -/
def Skips {α : Type} (p : Parser α) : Prop :=
  ∀ pointed, Reads p pointed pointed fun _ tokens => tokens = []

variable {α β : Type} {p q : Parser α} {f : α → Parser β} {before middle after : Bool}
variable {P P' : α → List Token → Prop} {Q : β → List Token → Prop}

theorem bind_eq_some {cs rest : List Char} {b : β} (h : (p >>= f) cs = some (b, rest)) :
    ∃ a mid, p cs = some (a, mid) ∧ f a mid = some (b, rest) := by
  cases hp : p cs with
  | none =>
    rw [bind_of_none hp] at h
    cases h
  | some read =>
    rw [bind_of_eq (show p cs = some (read.1, read.2) from hp)] at h
    exact ⟨read.1, read.2, rfl, h⟩

theorem satisfy_eq_some {q : Char → Bool} {cs rest : List Char} {c : Char}
    (h : satisfy q cs = some (c, rest)) : q c = true ∧ cs = c :: rest := by
  cases cs with
  | nil => cases h
  | cons d cs =>
    by_cases hd : q d = true
    · rw [satisfy, if_pos hd] at h
      cases h
      exact ⟨hd, rfl⟩
    · rw [satisfy, if_neg hd] at h
      cases h

namespace Reads

theorem imp (h : Reads p before after P) (himp : ∀ a tokens, P a tokens → P' a tokens) :
    Reads p before after P' := by
  intro cs a rest heq
  obtain ⟨hsuffix, tokens, hscan, htokens⟩ := h cs a rest heq
  exact ⟨hsuffix, tokens, hscan, himp a tokens htokens⟩

theorem pure {a : α} (ha : P a []) : Reads (pure a) before before P := by
  intro cs b rest heq
  cases heq
  exact ⟨List.suffix_refl cs, [], rfl, ha⟩

theorem bind {R : β → List Token → Prop} (hp : Reads p before middle P)
    (hf : ∀ a, Reads (f a) middle after (Q := fun b later => ∀ first, P a first → R b (first ++ later))) :
    Reads (p >>= f) before after R := by
  intro cs b rest heq
  obtain ⟨a, mid, hfirst, hsecond⟩ := bind_eq_some heq
  obtain ⟨hmid, first, hscan, hP⟩ := hp cs a mid hfirst
  obtain ⟨hrest, later, hscan', hR⟩ := hf a mid b rest hsecond
  refine ⟨hrest.trans hmid, first ++ later, ?_, hR first hP⟩
  rw [hscan, hscan', List.append_assoc]

theorem skip_bind (hp : Skips p) (hf : ∀ a, Reads (f a) before after Q) :
    Reads (p >>= f) before after Q := by
  refine bind (hp before) fun a => (hf a).imp ?_
  rintro b later hQ _ rfl
  exact hQ

theorem bind_pure {f : α → β} (hp : Reads p before after P)
    (himp : ∀ a tokens, P a tokens → Q (f a) tokens) :
    Reads (p >>= fun a => Pure.pure (f a)) before after Q := by
  refine bind hp fun a => pure fun first hP => ?_
  rw [List.append_nil]
  exact himp a first hP

theorem map {f : α → β} (hp : Reads p before after P)
    (himp : ∀ a tokens, P a tokens → Q (f a) tokens) : Reads (f <$> p) before after Q :=
  hp.bind_pure himp

theorem orElse (hp : Reads p before after P) (hq : Reads q before after P) :
    Reads (p <|> q) before after P := by
  intro cs a rest heq
  cases hfirst : p cs with
  | none =>
    rw [orElse_of_none hfirst] at heq
    exact hq cs a rest heq
  | some read =>
    rw [orElse_of_eq (show p cs = some (read.1, read.2) from hfirst)] at heq
    exact hp cs a rest (hfirst.trans heq)

theorem optional {P : Option α → List Token → Prop} (hnone : P none [])
    (hp : Reads p before before fun a tokens => P (some a) tokens) :
    Reads (optional p) before before P :=
  orElse (hp.map fun _ _ hP => hP) (pure hnone)

theorem between {first last : Parser Unit} (hfirst : Skips first) (hp : Reads p before after P)
    (hlast : Skips last) : Reads (Parser.between first p last) before after P := by
  refine skip_bind hfirst fun _ => bind hp fun a => skip_bind hlast fun _ => pure fun tokens hP => ?_
  rwa [List.append_nil]

theorem many {R : List α → List Token → Prop} (hp : Reads p before before P) (hnil : R [] [])
    (hcons : ∀ a as first later, P a first → R as later → R (a :: as) (first ++ later)) :
    Reads (Parser.many p) before before R := by
  -- The bound on the number of rounds plays no part.
  suffices h : ∀ fuel, Reads (manyUpTo p fuel) before before R from fun cs => h cs.length cs
  intro fuel
  induction fuel with
  | zero => exact pure hnil
  | succ fuel ih =>
    intro cs as rest heq
    cases hfirst : p cs with
    | none =>
      simp only [manyUpTo, hfirst] at heq
      cases heq
      exact ⟨List.suffix_refl cs, [], rfl, hnil⟩
    | some read =>
      obtain ⟨a, mid⟩ := read
      cases hmore : manyUpTo p fuel mid with
      | none =>
        simp only [manyUpTo, hfirst, hmore] at heq
        cases heq
      | some more =>
        obtain ⟨bs, last⟩ := more
        simp only [manyUpTo, hfirst, hmore] at heq
        cases heq
        obtain ⟨hmid, first, hscan, hP⟩ := hp cs a mid hfirst
        obtain ⟨hrest, later, hscan', hrow⟩ := ih mid bs rest hmore
        refine ⟨hrest.trans hmid, first ++ later, ?_, hcons a bs first later hP hrow⟩
        rw [hscan, hscan', List.append_assoc]

end Reads

namespace Skips

theorem bind (hp : Skips p) (hf : ∀ a, Skips (f a)) : Skips (p >>= f) :=
  fun pointed => .skip_bind hp fun a => hf a pointed

theorem pure (a : α) : Skips (Pure.pure a : Parser α) := fun _ => .pure rfl

theorem many (hp : Skips p) : Skips (Parser.many p) := fun pointed =>
  .many (hp pointed) rfl fun _ _ _ _ hfirst hlater => by rw [hfirst, hlater]; rfl

theorem between {first last : Parser Unit} (hfirst : Skips first) (hp : Skips p)
    (hlast : Skips last) : Skips (Parser.between first p last) :=
  fun pointed => .between hfirst (hp pointed) hlast

theorem takeWhile {q : Char → Bool} (hq : ∀ c, q c = true → isBlank c = true) :
    Skips (Parser.takeWhile q) := by
  intro pointed cs word rest heq
  cases heq
  exact ⟨List.dropWhile_suffix q, [], (scan_dropWhile hq pointed cs).symm, rfl⟩

end Skips

theorem skips_spaces : Skips spaces :=
  .bind (.takeWhile fun _ => isBlank_of_isSpace) fun _ => .pure _

theorem skips_blanks : Skips blanks := .bind (.takeWhile fun _ h => h) fun _ => .pure _

theorem reads_spaced (hp : Reads p before after P) : Reads (spaced p) before after P :=
  .between skips_spaces hp skips_spaces

theorem skips_lineBreaks : Skips lineBreaks := by
  have hbreak : Skips (satisfy isLineBreak) := by
    intro pointed cs c rest heq
    obtain ⟨hc, rfl⟩ := satisfy_eq_some heq
    exact ⟨List.suffix_cons c rest, [], scan_blank (isBlank_of_isLineBreak hc), rfl⟩
  have hbreaks : Skips (takeWhile1 isLineBreak) :=
    hbreak.bind fun _ => (Skips.takeWhile fun _ => isBlank_of_isLineBreak).bind fun _ => .pure _
  exact .between skips_spaces (hbreaks.bind fun _ => .pure ()) skips_spaces

theorem skips_comment : Skips comment := by
  refine skips_spaces.bind fun _ => ?_
  intro pointed cs u rest heq
  obtain ⟨c, mid, hmark, hline⟩ := bind_eq_some heq
  obtain ⟨hc, rfl⟩ := satisfy_eq_some hmark
  obtain rfl : c = '#' := of_decide_eq_true hc
  cases hline
  exact ⟨(List.dropWhile_suffix _).trans (List.suffix_cons _ _), [], scan_comment pointed mid, rfl⟩

theorem reads_mark {c : Char} (hc : isMark c = true) :
    Reads (Parser.char c) false false fun _ tokens => tokens = [.mark c] := by
  intro cs d rest heq
  obtain ⟨hd, rfl⟩ := satisfy_eq_some heq
  obtain rfl : d = c := of_decide_eq_true hd
  exact ⟨List.suffix_cons d rest, [.mark d], scan_mark hc rest, rfl⟩

theorem reads_identifier :
    Reads identifier false false fun name tokens => tokens = [.word name] := by
  intro cs name rest heq
  obtain ⟨c, mid, hfirst, hword⟩ := bind_eq_some heq
  obtain ⟨hc, rfl⟩ := satisfy_eq_some hfirst
  cases hword
  exact ⟨(List.dropWhile_suffix _).trans (List.suffix_cons c mid), _, scan_word hc, rfl⟩

theorem reads_arrow :
    Reads (Parser.word ['<', '-']) false true fun _ tokens => tokens = [.arrow] := by
  intro cs u rest heq
  obtain ⟨c, mid, hfirst, hmore⟩ := bind_eq_some heq
  obtain ⟨d, last, hsecond, hend⟩ := bind_eq_some hmore
  obtain ⟨hc, rfl⟩ := satisfy_eq_some hfirst
  obtain ⟨hd, rfl⟩ := satisfy_eq_some hsecond
  obtain rfl : c = '<' := of_decide_eq_true hc
  obtain rfl : d = '-' := of_decide_eq_true hd
  cases hend
  exact ⟨(List.suffix_cons _ _).trans (List.suffix_cons _ _), [.arrow], scan_arrow rest, rfl⟩

theorem reads_literal :
    Reads literal true false fun value tokens => tokens = [.value value] := by
  refine .skip_bind skips_blanks fun _ => ?_
  intro cs value rest heq
  obtain ⟨c, opened, hopen, hbody⟩ := bind_eq_some heq
  obtain ⟨body, closing, htext, hclose⟩ := bind_eq_some hbody
  obtain ⟨d, behind, hend, hblanks⟩ := bind_eq_some hclose
  obtain ⟨hc, rfl⟩ := satisfy_eq_some hopen
  obtain ⟨hd, rfl⟩ := satisfy_eq_some hend
  obtain rfl : c = '"' := of_decide_eq_true hc
  obtain rfl : d = '"' := of_decide_eq_true hd
  obtain ⟨hbody, hclosing⟩ := Prod.mk.inj (Option.some.inj htext)
  have hopened : opened = body ++ '"' :: behind := by
    rw [← hbody, ← hclosing]
    exact List.takeWhile_append_dropWhile.symm
  have hplain : ∀ d ∈ body, d ≠ '"' := fun d hmem => by
    rw [← hbody] at hmem
    simpa using List.mem_takeWhile_imp hmem
  cases hblanks
  subst hopened
  refine ⟨?_, [_], ?_, rfl⟩
  · exact (List.dropWhile_suffix _).trans ((List.suffix_cons _ _).trans
      ((List.suffix_append _ _).trans (List.suffix_cons _ _)))
  · rw [scan_literal true hplain, scan_dropWhile fun _ h => h]
    rfl

theorem reads_bare : Reads bare true false fun value tokens => tokens = [.value value] := by
  intro cs value rest heq
  obtain ⟨word, mid, hword, hvalue⟩ := bind_eq_some heq
  obtain ⟨c, behind, hfirst, hmore⟩ := bind_eq_some hword
  obtain ⟨hc, rfl⟩ := satisfy_eq_some hfirst
  cases hmore
  cases hvalue
  exact ⟨(List.dropWhile_suffix _).trans (List.suffix_cons c behind), _, scan_bare hc, rfl⟩

end BehaviorTree.Source
