import BehaviorTree.Proofs.Source.ReadWritten
import BehaviorTree.Proofs.Source.Tokens

/-!
What a parser reads of a text, it reads of the front of that text alone, if nothing of what is left there
could be taken for more: `Source.Cuts`. So the part of a text before a syntax error is a source of its
own.
-/

namespace BehaviorTree

namespace Text.Parser

variable {α : Type} {p : Parser α} {cs rest : List Char}

theorem Rounds.of_manyUpTo (htakes : ∀ {cs a rest}, p cs = some (a, rest) → rest.length < cs.length)
    {fuel : Nat} {as : List α} (h : Parser.manyUpTo p fuel cs = some (as, rest)) :
    Rounds p cs as rest := by
  induction fuel generalizing cs as with
  | zero =>
    cases h
    exact .nil
  | succ fuel ih =>
    cases hfirst : p cs with
    | none =>
      simp only [Parser.manyUpTo, hfirst] at h
      cases h
      exact .nil
    | some read =>
      obtain ⟨a, mid⟩ := read
      cases hmore : Parser.manyUpTo p fuel mid with
      | none =>
        simp only [Parser.manyUpTo, hfirst, hmore] at h
        cases h
      | some more =>
        simp only [Parser.manyUpTo, hfirst, hmore] at h
        cases h
        exact .cons hfirst (htakes hfirst) (ih hmore)

theorem many_eq_some (p : Parser α) (cs : List Char) : ∃ as out, Parser.many p cs = some (as, out) := by
  -- The bound on the number of rounds plays no part.
  suffices h : ∀ fuel cs, ∃ as out, Parser.manyUpTo p fuel cs = some (as, out) from h cs.length cs
  intro fuel
  induction fuel with
  | zero => exact fun cs => ⟨[], cs, rfl⟩
  | succ fuel ih =>
    intro cs
    cases hfirst : p cs with
    | none => exact ⟨[], cs, by simp only [Parser.manyUpTo, hfirst]⟩
    | some read =>
      obtain ⟨as, out, hmore⟩ := ih read.2
      exact ⟨read.1 :: as, out, by simp only [Parser.manyUpTo, hfirst, hmore]⟩

end Text.Parser

namespace Source

open Text Text.Parser

/-- A triple that runs backwards. What `p` reads are at least `taken` characters at the front of a text.
Where a text of less than `size` characters goes on, and `p` leaves a part of it that `After` holds of,
`Before` holds of the text, and `p'` reads the same of it alone. -/
structure Cuts {α : Type} (size taken : Nat) (Before After : List Char → Prop) (p p' : Parser α) :
    Prop where
  reads : ∀ {cs a rest}, p cs = some (a, rest) → ∃ used, cs = used ++ rest ∧ taken ≤ used.length
  cut : ∀ {front left tail a}, p (front ++ tail) = some (a, left ++ tail) → front.length < size →
    After left → Before front ∧ p' front = some (a, left)

def Starts (q : Char → Prop) (cs : List Char) : Prop := ∀ c ∈ cs.head?, q c

/-- What stands first behind the characters of a class. -/
def Next (skipped : Char → Bool) (q : Char → Prop) (cs : List Char) : Prop :=
  Starts q (cs.dropWhile skipped)

section Next

variable {skipped : Char → Bool} {q q' : Char → Prop} {cs : List Char}

theorem Next.imp (h : Next skipped q cs) (himp : ∀ c, q c → q' c) : Next skipped q' cs :=
  fun c hc => himp c (h c hc)

theorem Next.front {tail : List Char} (h : Next skipped q (cs ++ tail)) : Next skipped q cs := by
  intro c hc
  obtain ⟨rest, hrest⟩ := List.head?_eq_some_iff.mp hc
  refine h c ?_
  rw [List.dropWhile_append, hrest]
  rfl

theorem Next.of_blanks (h : Next isBlank q cs) : Next isSpace (fun c => q c ∨ isLineBreak c = true) cs := by
  intro c hc
  obtain ⟨rest, hrest⟩ := List.head?_eq_some_iff.mp hc
  have hspace := head_dropWhile isSpace cs c hc
  by_cases hbreak : isLineBreak c = true
  · exact .inr hbreak
  · refine .inl (h c ?_)
    rw [← dropWhile_isBlank_dropWhile (fun _ => isBlank_of_isSpace), hrest,
      List.dropWhile_cons_of_neg (by simp [isBlank, hspace, hbreak])]
    rfl

end Next

namespace Cuts

variable {α β : Type} {p p' : Parser α} {f f' : α → Parser β} {size taken more : Nat}
variable {Before Before' Middle After After' : List Char → Prop}

theorem imp (h : Cuts size taken Before After p p') (hbefore : ∀ cs, Before cs → Before' cs)
    (hafter : ∀ cs, After' cs → After cs) : Cuts size taken Before' After' p p' where
  reads := h.reads
  cut hread hsize hleft :=
    let hcut := h.cut hread hsize (hafter _ hleft)
    ⟨hbefore _ hcut.1, hcut.2⟩

theorem mono {size' taken' : Nat} (h : Cuts size taken Before After p p') (hsize : size' ≤ size)
    (htaken : taken' ≤ taken) : Cuts size' taken' Before After p p' where
  reads hread :=
    let ⟨used, hcs, hused⟩ := h.reads hread
    ⟨used, hcs, htaken.trans hused⟩
  cut hread hless hleft := h.cut hread (hless.trans_le hsize) hleft

theorem zero {q : Parser α} (h : Cuts size taken Before After p p') : Cuts 0 taken Before After p q where
  reads := h.reads
  cut _ hsize := (Nat.not_lt_zero _ hsize).elim

theorem length_lt (h : Cuts size 1 Before After p p') {cs rest : List Char} {a : α}
    (hread : p cs = some (a, rest)) : rest.length < cs.length := by
  obtain ⟨used, rfl, hused⟩ := h.reads hread
  rw [List.length_append]
  omega

theorem pure (a : α) : Cuts size 0 After After (pure a) (pure a) where
  reads hread := by
    cases hread
    exact ⟨[], rfl, le_rfl⟩
  cut hread _ hleft := by
    obtain ⟨rfl, hrest⟩ := Prod.mk.inj (Option.some.inj hread)
    obtain rfl := List.append_cancel_right hrest
    exact ⟨hleft, rfl⟩

/-- What the first parser takes is missing from what the second one reads. -/
theorem bind (hp : Cuts size taken Before Middle p p')
    (hf : ∀ a, Cuts (size - taken) more Middle After (f a) (f' a)) :
    Cuts size (taken + more) Before After (p >>= f) (p' >>= f') where
  reads hread := by
    obtain ⟨a, mid, hfirst, hsecond⟩ := bind_eq_some hread
    obtain ⟨used, rfl, hused⟩ := hp.reads hfirst
    obtain ⟨used', rfl, hused'⟩ := (hf a).reads hsecond
    exact ⟨used ++ used', (List.append_assoc ..).symm, by rw [List.length_append]; omega⟩
  cut {front left tail b} hread hsize hleft := by
    obtain ⟨a, mid, hfirst, hsecond⟩ := bind_eq_some hread
    obtain ⟨used', rfl, -⟩ := (hf a).reads hsecond
    obtain ⟨used, hfront, hused⟩ := hp.reads hfirst
    rw [← List.append_assoc] at hfirst hsecond
    rw [← List.append_assoc, ← List.append_assoc] at hfront
    obtain rfl := List.append_cancel_right hfront
    have hless : (used' ++ left).length < size - taken := by
      simp only [List.length_append] at hsize ⊢
      omega
    obtain ⟨hmiddle, hsecond'⟩ := (hf a).cut hsecond hless hleft
    obtain ⟨hbefore, hfirst'⟩ := hp.cut hfirst hsize hmiddle
    exact ⟨hbefore, (bind_of_eq hfirst' f').trans hsecond'⟩

theorem andThen (hp : Cuts size taken Before Middle p p')
    (hf : ∀ a, Cuts size more Middle After (f a) (f' a)) :
    Cuts size more Before After (p >>= f) (p' >>= f') :=
  ((hp.mono le_rfl (Nat.zero_le taken)).bind hf).mono le_rfl (Nat.le_add_left more 0)

theorem before (hp : Cuts size taken Before Middle p p')
    (hf : ∀ a, Cuts size more Middle After (f a) (f' a)) :
    Cuts size taken Before After (p >>= f) (p' >>= f') :=
  (hp.bind fun a => (hf a).mono (Nat.sub_le size taken) le_rfl).mono le_rfl (Nat.le_add_right taken more)

theorem bind_pure {f : α → β} (hp : Cuts size taken Before After p p') :
    Cuts size taken Before After (p >>= fun a => Pure.pure (f a)) (p' >>= fun a => Pure.pure (f a)) :=
  hp.before fun a => .pure (f a)

theorem map {f : α → β} (hp : Cuts size taken Before After p p') :
    Cuts size taken Before After (f <$> p) (f <$> p') :=
  hp.bind_pure

theorem orElse {q q' : Parser α} (hp : Cuts size taken Before After p p')
    (hq : Cuts size taken Before' After q q') (hbefore : ∀ cs, Before' cs → Before cs)
    (hnone : ∀ cs tail, p (cs ++ tail) = none → Before' cs → p' cs = none) :
    Cuts size taken Before After (p <|> q) (p' <|> q') where
  reads {cs a rest} hread := by
    cases hfirst : p cs with
    | none =>
      rw [orElse_of_none hfirst] at hread
      exact hq.reads hread
    | some read =>
      rw [orElse_of_eq (show p cs = some (read.1, read.2) from hfirst)] at hread
      exact hp.reads (hfirst.trans hread)
  cut {front left tail a} hread hsize hleft := by
    cases hfirst : p (front ++ tail) with
    | none =>
      rw [orElse_of_none hfirst] at hread
      obtain ⟨hfront, hsecond⟩ := hq.cut hread hsize hleft
      exact ⟨hbefore front hfront, (orElse_of_none (hnone front tail hfirst hfront) q').trans hsecond⟩
    | some read =>
      rw [orElse_of_eq (show p (front ++ tail) = some (read.1, read.2) from hfirst)] at hread
      obtain ⟨hfront, hfirst'⟩ := hp.cut (hfirst.trans hread) hsize hleft
      exact ⟨hfront, orElse_of_eq hfirst' q'⟩

theorem optional (hp : Cuts size taken Before After p p') (hbefore : ∀ cs, After cs → Before cs)
    (hnone : ∀ cs tail, p (cs ++ tail) = none → After cs → p' cs = none) :
    Cuts size 0 Before After (optional p) (optional p') := by
  refine (hp.mono le_rfl (Nat.zero_le taken)).map.orElse (.pure none) hbefore fun cs tail hp hleft => ?_
  refine map_of_none (hnone cs tail ?_ hleft) some
  cases hfirst : p (cs ++ tail) with
  | none => rfl
  | some read =>
    rw [map_of_eq (show p (cs ++ tail) = some (read.1, read.2) from hfirst)] at hp
    cases hp

theorem rounds (hp : Cuts size 1 Before Middle p p') (hbefore : ∀ cs, Before cs → Middle cs)
    (hafter : ∀ cs, After cs → Middle cs) {cs rest : List Char} {as : List α}
    (h : Rounds p cs as rest) :
    (∃ used, cs = used ++ rest) ∧ ∀ {front left tail}, cs = front ++ tail → rest = left ++ tail →
      front.length < size → After left → Middle front ∧ Rounds p' front as left := by
  induction h with
  | nil =>
    refine ⟨⟨[], rfl⟩, ?_⟩
    rintro front left tail rfl hrest hsize hleft
    obtain rfl := List.append_cancel_right hrest
    exact ⟨hafter front hleft, .nil⟩
  | cons hround _ _ ih =>
    obtain ⟨⟨used', rfl⟩, hcut⟩ := ih
    obtain ⟨used, rfl, hused⟩ := hp.reads hround
    refine ⟨⟨used ++ used', (List.append_assoc ..).symm⟩, ?_⟩
    rintro front left tail hfront rfl hsize hleft
    rw [← List.append_assoc, ← List.append_assoc] at hfront
    obtain rfl := List.append_cancel_right hfront
    have hless : (used' ++ left).length < (used ++ used' ++ left).length := by
      simp only [List.length_append]
      omega
    obtain ⟨hmiddle, hrounds⟩ := hcut (List.append_assoc ..).symm rfl (hless.trans hsize) hleft
    simp only [← List.append_assoc] at hround
    obtain ⟨hfront, hround'⟩ := hp.cut hround hsize hmiddle
    exact ⟨hbefore _ hfront, .cons hround' hless hrounds⟩

/-- The text between two rounds is one before which a round can end: there another round begins, or the
loop ends. -/
theorem many (hp : Cuts size 1 Before Middle p p') (hbefore : ∀ cs, Before cs → Middle cs)
    (hafter : ∀ cs, After cs → Middle cs) (hstop : ∀ cs, After cs → p' cs = none) :
    Cuts size 0 Middle After (Parser.many p) (Parser.many p') where
  reads hread := by
    obtain ⟨used, hcs⟩ := (hp.rounds hbefore hafter (.of_manyUpTo hp.length_lt hread)).1
    exact ⟨used, hcs, Nat.zero_le _⟩
  cut {front left tail as} hread hsize hleft := by
    obtain ⟨hfront, hrounds⟩ :=
      (hp.rounds hbefore hafter (.of_manyUpTo hp.length_lt hread)).2 rfl rfl hsize hleft
    exact ⟨hfront, hrounds.many (hstop left hleft)⟩

theorem between {first last : Parser Unit} {Start End : List Char → Prop}
    (hfirst : Cuts size 0 Start Before first first) (hp : Cuts size taken Before After p p')
    (hlast : Cuts size 0 After End last last) :
    Cuts size taken Start End (Parser.between first p last) (Parser.between first p' last) :=
  hfirst.andThen fun _ => hp.before fun a => hlast.andThen fun _ => .pure a

end Cuts

section Grammar

variable {α : Type} {size taken : Nat} {Before After : List Char → Prop}

def Anything (_ : List Char) : Prop := True

theorem cuts_satisfy {q : Char → Bool} :
    Cuts size 1 (Starts (q · = true)) After (satisfy q) (satisfy q) where
  reads hread := by
    obtain ⟨-, rfl⟩ := satisfy_eq_some hread
    exact ⟨[_], rfl, le_rfl⟩
  cut {front left tail c} hread _ _ := by
    obtain ⟨hc, hfront⟩ := satisfy_eq_some hread
    obtain rfl := List.append_cancel_right (show front ++ tail = (c :: left) ++ tail from hfront)
    exact ⟨by simpa [Starts] using hc, by simp [satisfy, hc]⟩

theorem cuts_takeWhile (q : Char → Bool) :
    Cuts size 0 (fun cs => After (cs.dropWhile q)) After (Parser.takeWhile q) (Parser.takeWhile q) where
  reads {cs word rest} hread := by
    cases hread
    exact ⟨cs.takeWhile q, List.takeWhile_append_dropWhile.symm, Nat.zero_le _⟩
  cut {front left tail word} hread _ hleft := by
    obtain ⟨hword, hrest⟩ := Prod.mk.inj (Option.some.inj hread)
    have hwhole : front ++ tail = word ++ left ++ tail := by
      rw [List.append_assoc, ← hword, ← hrest, List.takeWhile_append_dropWhile]
    have hfront := List.append_cancel_right hwhole
    have hplain : ∀ c ∈ word, q c = true := fun c hc => by
      rw [← hword] at hc
      exact List.mem_takeWhile_imp hc
    have hhead : ∀ c ∈ left.head?, q c = false := fun c hc => by
      refine head_dropWhile q (front ++ tail) c ?_
      obtain ⟨rest, rfl⟩ := List.head?_eq_some_iff.mp hc
      rw [hrest]
      rfl
    have hcut := takeWhile_append hplain hhead
    rw [← hfront] at hcut
    exact ⟨by rwa [(Prod.mk.inj (Option.some.inj hcut)).2], hcut⟩

theorem cuts_skip (q : Char → Bool) :
    Cuts size 0 (fun cs => After (cs.dropWhile q)) After (skip q) (skip q) :=
  (cuts_takeWhile q).bind_pure

theorem cuts_spaces : Cuts size 0 (fun cs => After (cs.dropWhile isSpace)) After spaces spaces :=
  cuts_skip isSpace

theorem cuts_blanks : Cuts size 0 (fun cs => After (cs.dropWhile isBlank)) After blanks blanks :=
  cuts_skip isBlank

/-- What stands behind the characters that are skipped stands there without the spaces among them. -/
theorem cuts_skipUpTo {skipped : Char → Bool} {q : Char → Prop}
    (h : ∀ c, isSpace c = true → skipped c = true) :
    Cuts size 0 (Next skipped q) (Next isSpace q) (skip skipped) (skip skipped) := by
  refine (@cuts_skip size (Next isSpace q) skipped).imp (fun cs hnext => ?_) fun _ h => h
  have hhead : ∀ c ∈ (cs.dropWhile skipped).head?, isSpace c = false := fun c hc => by
    by_contra hspace
    have hskipped := head_dropWhile skipped cs c hc
    rw [h c ((Bool.not_eq_false _).mp hspace)] at hskipped
    cases hskipped
  rwa [Next, dropWhile_of_head hhead] at hnext

theorem Cuts.anything {p p' : Parser α} (h : Cuts size taken Before After p p') :
    Cuts size taken Anything After p p' :=
  h.imp (fun _ _ => trivial) fun _ h => h

theorem cuts_spaced {p p' : Parser α} {q : Char → Prop}
    (hp : Cuts size taken (Starts q) (fun cs => After (cs.dropWhile isSpace)) p p') :
    Cuts size taken (Next isSpace q) After (spaced p) (spaced p') :=
  .between (@cuts_spaces size (Starts q)) hp cuts_spaces

theorem cuts_char {c : Char} : Cuts size 1 (Starts (· = c)) After (char c) (char c) :=
  cuts_satisfy.imp (fun _ h d hd => of_decide_eq_true (h d hd)) fun _ h => h

theorem cuts_mark {c : Char} :
    Cuts size 1 (Next isSpace (· = c)) After (spaced (char c)) (spaced (char c)) :=
  cuts_spaced cuts_char

theorem cuts_word {c : Char} (cs : List Char) :
    Cuts size 1 (Starts (· = c)) After (word (c :: cs)) (word (c :: cs)) := by
  have hword : ∀ cs, Cuts size 0 Anything After (word cs) (word cs) := by
    intro cs
    induction cs with
    | nil => exact (Cuts.pure ()).anything
    | cons c cs ih => exact (cuts_char.andThen fun _ => ih).anything
  exact cuts_char.before fun _ => hword cs

theorem cuts_takeWhile1 {q : Char → Bool} :
    Cuts size 1 (Starts (q · = true)) After (takeWhile1 q) (takeWhile1 q) :=
  cuts_satisfy.before fun _ => (cuts_takeWhile q).bind_pure

theorem cuts_identifier :
    Cuts size 1 (Starts (isLetter · = true)) After identifier identifier :=
  cuts_satisfy.before fun _ => (cuts_takeWhile isWordChar).bind_pure

theorem cuts_name :
    Cuts size 1 (Next isSpace (isLetter · = true)) After (spaced identifier) (spaced identifier) :=
  cuts_spaced cuts_identifier

theorem cuts_lineBreaks :
    Cuts size 1 (Next isSpace (isLineBreak · = true)) After lineBreaks lineBreaks :=
  cuts_spaced cuts_takeWhile1.bind_pure

theorem cuts_comment : Cuts size 1 (Next isSpace (· = '#')) After comment comment :=
  (@cuts_spaces size (Starts (· = '#'))).andThen fun _ => cuts_char.before fun _ => cuts_skip _

theorem cuts_comma : Cuts size 1 (Next isBlank (· = ',')) After comma comma :=
  (@cuts_blanks size (Starts (· = ','))).andThen fun _ => cuts_char.bind_pure

theorem literal_of_head {cs : List Char} (h : ∀ c ∈ (cs.dropWhile isBlank).head?, c ≠ '"') :
    literal cs = none := by
  rw [literal, bind_of_eq (blanks_eq cs), bind_of_none (char_of_head h)]

theorem cuts_value : Cuts size 1 Anything After (literal <|> bare) (literal <|> bare) := by
  have hliteral : Cuts size 1 Anything After literal literal :=
    cuts_blanks.anything.andThen fun _ => cuts_char.anything.before fun _ =>
      (cuts_takeWhile _).andThen fun _ => cuts_char.anything.andThen fun _ => cuts_blanks.bind_pure
  have hbare : Cuts size 1 (Starts (isBareChar · = true)) After bare bare :=
    cuts_takeWhile1.bind_pure
  refine hliteral.orElse hbare (fun _ _ => trivial) fun cs tail _ hhead => literal_of_head ?_
  rw [dropWhile_of_head fun c hc => isBlank_of_isBareChar (hhead c hc)]
  exact fun c hc => ne_of_isBareChar (hhead c hc) (by decide)

theorem cuts_arg : Cuts size 1 (Next isSpace (isLetter · = true)) After arg arg := by
  have harrow : Cuts size 1 Anything Anything (spaced (word ['<', '-'])) (spaced (word ['<', '-'])) :=
    (cuts_spaced (cuts_word _)).anything
  have hvalue : Cuts size 1 Anything After (spaced (literal <|> bare)) (spaced (literal <|> bare)) :=
    .between cuts_spaces.anything cuts_value cuts_spaces
  exact cuts_name.before fun _ => harrow.andThen fun _ => hvalue.bind_pure

theorem cuts_argItem :
    Cuts size 1 (Next isBlank (isLetter · = true)) (Next isBlank (· ≠ ',')) argItem argItem := by
  have hcommas : Cuts size 0 Anything (Next isBlank (· ≠ ',')) (do let _ ← many comma)
      (do let _ ← many comma) :=
    (cuts_comma.many (fun _ _ => trivial) (fun _ _ => trivial) fun _ => comma_of_head).bind_pure
  exact .between (cuts_skipUpTo fun _ => isBlank_of_isSpace) cuts_arg hcommas

theorem cuts_args : Cuts size 0 Anything (Next isBlank (· = ')')) args args := by
  refine (cuts_argItem.many ?_ ?_ ?_).anything
  · exact fun cs h => h.imp fun c hc => ne_of_isLetter hc (by decide)
  · exact fun cs h => h.imp fun c hc => by rw [hc]; decide
  · exact fun cs h => argItem_of_head (h.imp fun c hc => by rw [hc]; decide)

theorem cuts_argList : Cuts size 1 (Next isSpace (· = '(')) After argList argList :=
  cuts_mark.before fun _ => cuts_args.andThen fun _ =>
    (@cuts_blanks size (Starts (· = ')'))).andThen fun _ => cuts_char.andThen fun _ =>
      cuts_spaces.bind_pure

theorem argList_of_head {cs : List Char} (h : Next isSpace (· ≠ '(') cs) : argList cs = none :=
  bind_of_none (spaced_of_none (char_of_head h)) _

/-- Not taken for a part of the node before it. -/
def IsApart (c : Char) : Prop := c ≠ '(' ∧ c ≠ '{'

theorem cuts_commentOr {comment : Parser Unit} {p p' : Parser α} {skipped : Char → Bool}
    {q : Char → Prop} (hcomment : Cuts size 1 (Next skipped (· = '#')) After comment comment)
    (hp : Cuts size 1 (Next skipped q) After p p') (hnone : ∀ cs, Next skipped q cs → comment cs = none) :
    Cuts size 1 (Next skipped fun c => q c ∨ c = '#') After (commentOr comment p)
      (commentOr comment p') := by
  have heither := hcomment.bind_pure (f := fun _ => (none : Option α))
  refine (heither.imp (fun _ h => h.imp fun _ => .inr) fun _ h => h).orElse hp.map
    (fun _ h => h.imp fun _ => .inl) fun cs _ _ hq => bind_of_none (hnone cs hq) _

/-- What a node stands before in a block: another one, a comment, or the end of the block. -/
def GoesOn (c : Char) : Prop := (isLetter c = true ∨ c = '#') ∨ c = '}'

theorem GoesOn.isLineBreak {c : Char} (h : GoesOn c) : isLineBreak c = false := by
  obtain (h | rfl) | rfl := h
  · have hblank := isBlank_of_isLetter h
    by_contra hbreak
    simp [isBlank_of_isLineBreak ((Bool.not_eq_false _).mp hbreak)] at hblank
  · decide
  · decide

theorem GoesOn.isApart {c : Char} (h : GoesOn c) : IsApart c := by
  obtain (h | rfl) | rfl := h
  · exact ⟨ne_of_isLetter h (by decide), ne_of_isLetter h (by decide)⟩
  · exact ⟨by decide, by decide⟩
  · exact ⟨by decide, by decide⟩

theorem isApart_of_isLineBreak {c : Char} (h : isLineBreak c = true) : IsApart c := by
  constructor <;> rintro rfl <;> exact absurd h (by decide)

theorem cuts_manyLineBreaks :
    Cuts size 0 (Next isSpace IsApart) (Next isSpace GoesOn) (many lineBreaks) (many lineBreaks) :=
  cuts_lineBreaks.many (fun _ h => h.imp fun _ => isApart_of_isLineBreak)
    (fun _ h => h.imp fun _ => GoesOn.isApart)
    fun _ h => lineBreaks_of_head (h.imp fun _ => GoesOn.isLineBreak)

section Blocks

variable {child child' : Parser SourceNode}

theorem cuts_childItem
    (hchild : Cuts size 1 (Next isSpace (isLetter · = true)) (Next isSpace IsApart) child child') :
    Cuts size 1 (Next isSpace fun c => isLetter c = true ∨ c = '#') (Next isSpace GoesOn)
      (childItem child) (childItem child') :=
  .between (cuts_skipUpTo fun _ h => h)
    (cuts_commentOr cuts_comment hchild fun _ h =>
      comment_of_head (h.imp fun _ hc => ne_of_isLetter hc (by decide)))
    cuts_manyLineBreaks.bind_pure

theorem cuts_children
    (hchild : Cuts size 1 (Next isSpace (isLetter · = true)) (Next isSpace IsApart) child child')
    (hstop : ∀ cs, Next isSpace (isLetter · = false) cs → child' cs = none) :
    Cuts size 0 Anything (Next isSpace (· = '}')) (children child) (children child') := by
  have hitems : Cuts size 0 (Next isSpace GoesOn) (Next isSpace (· = '}')) (many (childItem child))
      (many (childItem child')) :=
    (cuts_childItem hchild).many (fun _ h => h.imp fun _ => .inl) (fun _ h => h.imp fun _ => .inr)
      fun _ h => childItem_of_head hstop (h.imp fun _ hc => by rw [hc]; decide)
  exact cuts_manyLineBreaks.anything.andThen fun _ => hitems.bind_pure

theorem cuts_childList
    (hchild : Cuts size 1 (Next isSpace (isLetter · = true)) (Next isSpace IsApart) child child')
    (hstop : ∀ cs, Next isSpace (isLetter · = false) cs → child' cs = none) :
    Cuts size 1 (Next isSpace (· = '{')) After (childList child) (childList child') :=
  cuts_mark.bind_pure.before fun _ => (cuts_children hchild hstop).before fun nodes =>
    cuts_mark.bind_pure.before fun _ => .pure nodes

theorem childList_of_head {cs : List Char} (h : Next isSpace (· ≠ '{') cs) :
    childList child cs = none :=
  bind_of_none (bind_of_none (spaced_of_none (char_of_head h)) _) _

theorem comment_front {cs tail : List Char} (h : comment (cs ++ tail) = none) : comment cs = none := by
  have hwhole : Next isSpace (· ≠ '#') (cs ++ tail) := by
    intro c hc heq
    obtain ⟨rest, hrest⟩ := List.head?_eq_some_iff.mp hc
    rw [comment_cons (heq ▸ hrest)] at h
    cases h
  exact comment_of_head hwhole.front

theorem cuts_nodeUpTo_succ {depth depth' : Nat}
    (h : Cuts size 1 (Next isSpace (isLetter · = true)) (Next isSpace IsApart) (nodeUpTo depth)
      (nodeUpTo depth')) :
    Cuts (size + 1) 1 (Next isSpace (isLetter · = true)) (Next isSpace IsApart) (nodeUpTo (depth + 1))
      (nodeUpTo (depth' + 1)) := by
  have hargs : Cuts size 0 Anything (Next isSpace (· ≠ '(')) (optional argList) (optional argList) :=
    cuts_argList.anything.optional (fun _ _ => trivial) fun _ _ _ => argList_of_head
  have hchildren : Cuts size 0 (Next isSpace (· ≠ '(')) (Next isSpace IsApart)
      (optional (childList (nodeUpTo depth))) (optional (childList (nodeUpTo depth'))) := by
    have hblock := @cuts_childList size (Next isSpace IsApart) _ _ h fun _ => nodeUpTo_of_head depth'
    refine (hblock.imp (fun _ h => h.imp ?_) fun _ h => h).optional (fun _ h => h.imp fun _ => And.left)
      fun _ _ _ h => childList_of_head (h.imp fun _ => And.right)
    rintro _ rfl
    decide
  have hcomment : Cuts size 0 (Next isSpace IsApart) (Next isSpace IsApart) (optional comment)
      (optional comment) := by
    refine (cuts_comment.imp (fun _ h => h.imp ?_) fun _ h => h).optional (fun _ h => h)
      fun _ _ hnone _ => comment_front hnone
    rintro _ rfl
    exact ⟨by decide, by decide⟩
  have hname : Cuts (size + 1) 1 (Next isSpace (isLetter · = true)) Anything (spaced identifier)
      (spaced identifier) := cuts_name
  exact hname.bind fun _ => hargs.andThen fun _ => hchildren.andThen fun _ => hcomment.bind_pure

theorem cuts_nodeUpTo (depth size : Nat) :
    Cuts size 1 (Next isSpace (isLetter · = true)) (Next isSpace IsApart) (nodeUpTo depth)
      (nodeUpTo size) := by
  induction depth generalizing size with
  | zero => exact ⟨nofun, nofun⟩
  | succ depth ih =>
    cases size with
    | zero => exact (cuts_nodeUpTo_succ (ih 0)).zero
    | succ size => exact cuts_nodeUpTo_succ (ih size)

theorem cuts_node :
    Cuts size 1 (Next isSpace (isLetter · = true)) (Next isSpace IsApart) node node where
  reads {cs _ _} hread := (cuts_nodeUpTo (cs.length + 1) 0).reads hread
  cut {front _ tail _} hread _ hleft :=
    (cuts_nodeUpTo ((front ++ tail).length + 1) (front.length + 1)).cut hread (Nat.lt_succ_self _) hleft

end Blocks

theorem cuts_definition :
    Cuts size 1 (Next isBlank (· = 't')) (Next isSpace IsApart) definition definition :=
  (@cuts_blanks size (Starts (· = 't'))).andThen fun _ => (cuts_word _).before fun _ =>
    cuts_spaces.anything.andThen fun _ => cuts_name.anything.andThen fun _ =>
      cuts_mark.anything.andThen fun _ => cuts_node.bind_pure

theorem cuts_definitionItem :
    Cuts size 1 (Next isBlank fun c => c = 't' ∨ c = '#') (Next isSpace IsApart) definitionItem
      definitionItem := by
  have hblock : Cuts size 1 (Next isBlank (· = '#')) (Next isSpace IsApart) commentBlock commentBlock :=
    .between (cuts_skipUpTo fun _ => isBlank_of_isSpace) cuts_comment cuts_blanks
  refine cuts_commentOr hblock cuts_definition fun _ h => commentBlock_of_head (h.imp ?_)
  rintro _ rfl
  decide

theorem cuts_definitionList : Cuts size 0 Anything (· = []) definitionList definitionList := by
  have hitems : Cuts size 0 (Next isSpace IsApart) (fun cs => cs.dropWhile isBlank = [])
      (many definitionItem) (many definitionItem) := by
    refine cuts_definitionItem.many (fun _ h => h.of_blanks.imp ?_) (fun cs h => ?_) fun cs h => ?_
    · rintro c ((rfl | rfl) | hbreak)
      · exact ⟨by decide, by decide⟩
      · exact ⟨by decide, by decide⟩
      · exact isApart_of_isLineBreak hbreak
    · have hnone : Next isBlank (fun _ => False) cs := by rw [Next, h]; exact nofun
      exact hnone.of_blanks.imp fun _ hc => isApart_of_isLineBreak (hc.resolve_left id)
    · exact definitionItem_of_head (by rw [h]; exact nofun)
  exact hitems.anything.andThen fun _ => (@cuts_blanks size (· = [])).bind_pure

end Grammar

theorem definitionList_eq_some (cs : List Char) : ∃ definitions out : List _,
    definitionList cs = some (definitions, List.dropWhile isBlank out) := by
  obtain ⟨items, out, hitems⟩ := many_eq_some definitionItem cs
  exact ⟨_, out, (bind_of_eq hitems _).trans (bind_of_eq (blanks_eq out) _)⟩

/-- Reading stops in a text, and the blanks there are read. -/
theorem readFront_stops (cs : List Char) :
    (∃ front, cs = front ++ (readFront cs).2) ∧ ∀ c ∈ (readFront cs).2.head?, isBlank c = false := by
  obtain ⟨definitions, out, hread⟩ := definitionList_eq_some cs
  obtain ⟨front, hfront, -⟩ := (@cuts_definitionList 0).reads hread
  rw [readFront, hread]
  exact ⟨⟨front, hfront⟩, head_dropWhile isBlank out⟩

/-- The part of a text that is read before an error is a source of the same definitions. -/
theorem readFront_front {front rest : List Char} (h : (readFront (front ++ rest)).2 = rest) :
    readFront front = ((readFront (front ++ rest)).1, []) := by
  obtain ⟨definitions, out, hread⟩ := definitionList_eq_some (front ++ rest)
  have hwhole : readFront (front ++ rest) = (⟨definitions⟩, out.dropWhile isBlank) := by
    rw [readFront, hread]
  rw [hwhole] at h ⊢
  rw [show out.dropWhile isBlank = [] ++ rest from h] at hread
  rw [readFront, (cuts_definitionList.cut hread (Nat.lt_succ_self _) rfl).2]

theorem firstLine_begins (cs : List Char) : firstLine cs <+: cs.takeWhile (· ≠ '\n') := by
  simp only [firstLine]
  split
  · exact List.dropLast_prefix _
  · exact List.prefix_refl _

theorem firstLine_cons {c : Char} (hc : isBlank c = false) (cs : List Char) :
    ∃ more, firstLine (c :: cs) = c :: more := by
  have hfeed : c ≠ '\n' := by rintro rfl; exact absurd hc (by decide)
  have hreturn : c ≠ '\r' := by rintro rfl; exact absurd hc (by decide)
  have hline : (c :: cs).takeWhile (· ≠ '\n') = c :: cs.takeWhile (· ≠ '\n') :=
    List.takeWhile_cons_of_pos (by simpa using hfeed)
  simp only [firstLine, hline]
  cases cs.takeWhile (· ≠ '\n') with
  | nil => exact ⟨[], by simp [hreturn]⟩
  | cons d more => split <;> exact ⟨_, rfl⟩

theorem shown_cons {c : Char} (hc : isBlank c = false) (cs : List Char) :
    ∃ more, (firstLine (c :: cs)).take snippetLength = c :: more ∧
      c :: more <+: (c :: cs).takeWhile (· ≠ '\n') := by
  obtain ⟨more, hmore⟩ := firstLine_cons hc cs
  have htake := List.take_prefix snippetLength (firstLine (c :: cs))
  have hbegins := htake.trans (firstLine_begins (c :: cs))
  rw [hmore] at hbegins ⊢
  exact ⟨more.take 39, rfl, hbegins⟩

theorem splitOn_cons (c : Char) (cs : List Char) : (c :: cs).splitOn '\n' =
    if c = '\n' then [] :: cs.splitOn '\n' else (cs.splitOn '\n').modifyHead (c :: ·) := by
  simp only [List.splitOn, List.splitOnP_cons_eq_if_modifyHead, beq_iff_eq]

theorem splitOn_head (cs : List Char) :
    (cs.splitOn '\n')[0]? = some (cs.takeWhile (· ≠ '\n')) := by
  induction cs with
  | nil => rfl
  | cons c cs ih =>
    rw [splitOn_cons]
    split
    · next h => simp [h]
    · next h => simp [List.getElem?_modifyHead, ih, h]

/-- The line that goes on where a text is cut. -/
theorem splitOn_append (front rest : List Char) : ∃ before,
    ((front ++ rest).splitOn '\n')[front.count '\n']? = some (before ++ rest.takeWhile (· ≠ '\n')) := by
  induction front with
  | nil => exact ⟨[], splitOn_head rest⟩
  | cons c front ih =>
    obtain ⟨before, hrow⟩ := ih
    rw [List.cons_append, splitOn_cons]
    split
    · next h => exact ⟨before, by rw [h, List.count_cons_self, List.getElem?_cons_succ, hrow]⟩
    · next h =>
      rw [List.count_cons_of_ne h, List.getElem?_modifyHead]
      split
      · exact ⟨c :: before, by rw [hrow]; rfl⟩
      · exact ⟨before, hrow⟩

theorem parse_eq_error {text : String} {error : SyntaxError} (h : parse text = .error error) :
    ∃ c rest, (readFront text.toList).2 = c :: rest ∧ error = syntaxError text.toList (c :: rest) := by
  rw [parse] at h
  split at h
  · cases h
  · next rest hnil hread =>
    cases h
    rw [hread]
    cases rest with
    | nil => exact (hnil rfl).elim
    | cons c rest => exact ⟨c, rest, rfl, rfl⟩

/-- An error shows what stands behind the front of a text, which can be read without what follows. -/
structure SyntaxError.PointsBehind (error : SyntaxError) (front text : List Char) : Prop where
  shows_text : ∃ behind, text = front ++ (error.snippet.toList ++ behind)
  reads_front : ∃ source, parse (String.ofList front) = .ok source
  snippet_ne : error.snippet ≠ ""
  snippet_length : error.snippet.length ≤ 40
  solid : ∀ c ∈ error.snippet.toList.head?, isBlank c = false
  line_eq : error.line = front.count '\n' + 1
  line_bounds : 1 ≤ error.line ∧ error.line ≤ (text.splitOn '\n').length
  on_line : ∃ row, (text.splitOn '\n')[error.line - 1]? = some row ∧ error.snippet.toList <:+: row

/-- Whatever text is refused, the error points into it, at the first character that is not read. -/
theorem parse_error_points {text : String} {error : SyntaxError} (h : parse text = .error error) :
    ∃ front, error.PointsBehind front text.toList := by
  obtain ⟨c, rest, hrest, rfl⟩ := parse_eq_error h
  obtain ⟨⟨front, hfront⟩, hblank⟩ := readFront_stops text.toList
  rw [hrest] at hfront hblank
  have hsource : parse (String.ofList front) = .ok (readFront text.toList).1 := by
    rw [hfront] at hrest ⊢
    refine parse_of_readFront ?_
    rw [String.toList_ofList, readFront_front hrest]
  have hline : (syntaxError text.toList (c :: rest)).line = front.count '\n' + 1 := by
    simp [syntaxError, hfront]
  obtain ⟨more, hshown, hbegins⟩ := shown_cons (hblank c rfl) rest
  have hsnippet : (syntaxError text.toList (c :: rest)).snippet.toList = c :: more := by
    rw [syntaxError, String.toList_ofList, hshown]
  have hstart := List.takeWhile_prefix (l := c :: rest) (· ≠ '\n')
  obtain ⟨behind, hbehind⟩ := hbegins.trans hstart
  obtain ⟨before, hrow⟩ := splitOn_append front (c :: rest)
  rw [← hfront, ← Nat.add_sub_cancel (front.count '\n') 1, ← hline] at hrow
  refine ⟨front, ⟨behind, ?_⟩, ⟨_, hsource⟩, ?_, ?_, ?_, hline, ⟨?_, ?_⟩, _, hrow, ?_⟩
  · rw [hsnippet, hbehind, hfront]
  · intro hnone
    rw [hnone] at hsnippet
    cases hsnippet
  · rw [syntaxError, String.length_ofList]
    exact List.length_take_le _ _
  · rw [hsnippet]
    exact head_cons (hblank c rfl) more
  · rw [hline]
    exact Nat.le_add_left 1 _
  · have hless := (List.getElem?_eq_some_iff.mp hrow).1
    omega
  · rw [hsnippet]
    exact hbegins.isInfix.trans (List.suffix_append before _).isInfix

def brokenText : String := "tree main = Guard \x7b\n\tWait # on \r\n\x7d\ntree broken Guard \x7b\n\x7d\n"

theorem brokenText_points :
    parse brokenText = .error ⟨4, "tree broken Guard \x7b"⟩ ∧
      ∃ front, SyntaxError.PointsBehind ⟨4, "tree broken Guard \x7b"⟩ front brokenText.toList := by
  have hread : readFront brokenText.toList = (⟨[⟨"main", .mk "Guard" [] [.mk "Wait" [] []]⟩]⟩,
      't' :: "ree broken Guard \x7b\n\x7d\n".toList) := by decide +kernel
  have herror : parse brokenText = .error ⟨4, "tree broken Guard \x7b"⟩ :=
    (parse_of_rest hread).trans (congrArg Except.error (by decide +kernel))
  exact ⟨herror, parse_error_points herror⟩

end Source

end BehaviorTree
