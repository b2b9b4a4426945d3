import BehaviorTree.Proofs.Source.Tokens

namespace BehaviorTree

open Source Text Text.Parser

/-- Tokens between brackets, which are left out where there is nothing between them. -/
def Source.group (opening : Char) (tokens : List Token) (closing : Char) : List Token :=
  if tokens = [] then [] else .mark opening :: (tokens ++ [.mark closing])

def Arg.tokens (arg : Arg) : List Token := [.word arg.name, .arrow, .value arg.value]

namespace SourceNode

mutual

def tokens : SourceNode → List Token
  | .mk type args children =>
    .word type :: (group '(' (args.flatMap Arg.tokens) ')' ++ group '{' (tokensList children) '}')

def tokensList : List SourceNode → List Token
  | [] => []
  | node :: nodes => node.tokens ++ tokensList nodes

end

theorem tokensList_eq (nodes : List SourceNode) : tokensList nodes = nodes.flatMap tokens := by
  induction nodes with
  | nil => rfl
  | cons node nodes ih => rw [tokensList, ih, List.flatMap_cons]

end SourceNode

/-- The tokens of a definition. Where it is `glued`, its name follows the word `tree` as if they were one
word. -/
def Definition.tokens (glued : Bool) (definition : Definition) : List Token :=
  (if glued then [.word ("tree" ++ definition.name)] else [.word "tree", .word definition.name]) ++
    .mark '=' :: definition.root.tokens

namespace Source

def tokens (source : Source) : List Token := source.definitions.flatMap (Definition.tokens false)

def isEmptyGroup (first second : Token) : Bool :=
  (first = .mark '(' && second = .mark ')') || (first = .mark '{' && second = .mark '}')

def dropEmptyGroups : List Token → List Token
  | first :: second :: rest =>
    if isEmptyGroup first second then dropEmptyGroups rest
    else first :: dropEmptyGroups (second :: rest)
  | rest => rest

def dropCommas (tokens : List Token) : List Token := tokens.filter (· ≠ .mark ',')

def significant (tokens : List Token) : List Token := dropEmptyGroups (dropCommas tokens)

theorem dropEmptyGroups_cons {first : Token} (h : ∀ second, isEmptyGroup first second = false)
    (rest : List Token) : dropEmptyGroups (first :: rest) = first :: dropEmptyGroups rest := by
  cases rest with
  | nil => rfl
  | cons second rest => rw [dropEmptyGroups, h second, if_neg Bool.false_ne_true]

theorem dropCommas_append (left right : List Token) :
    dropCommas (left ++ right) = dropCommas left ++ dropCommas right :=
  List.filter_append left right

/-- The first tokens come to the second ones without commas and empty groups, whatever stands behind
them. -/
def Reduces (raw clean : List Token) : Prop :=
  ∀ later, dropEmptyGroups (dropCommas raw ++ later) = clean ++ dropEmptyGroups later

namespace Reduces

variable {raw clean raw' clean' : List Token}

theorem append (h : Reduces raw clean) (h' : Reduces raw' clean') :
    Reduces (raw ++ raw') (clean ++ clean') := by
  intro later
  rw [dropCommas_append, List.append_assoc, h, h', List.append_assoc]

theorem of_plain (h : ∀ token ∈ raw, token ≠ .mark ',' ∧ ∀ second, isEmptyGroup token second = false) :
    Reduces raw raw := by
  intro later
  induction raw with
  | nil => rfl
  | cons token raw ih =>
    obtain ⟨⟨hcomma, hopen⟩, hrest⟩ := List.forall_mem_cons.mp h
    rw [dropCommas, List.filter_cons_of_pos (by simpa using hcomma), List.cons_append,
      dropEmptyGroups_cons hopen, ← dropCommas, ih hrest, List.cons_append]

theorem cons {token : Token}
    (htoken : token ≠ .mark ',' ∧ ∀ second, isEmptyGroup token second = false) (h : Reduces raw clean) :
    Reduces (token :: raw) (token :: clean) :=
  (of_plain (List.forall_mem_singleton.mpr htoken)).append h

theorem significant (h : Reduces raw clean) : significant raw = clean := by
  have hall := h []
  rwa [List.append_nil, show dropEmptyGroups [] = [] from rfl, List.append_nil] at hall

end Reduces

/-- Tokens that reduce to others, and of which the first one is a word. -/
structure Phrases (raw clean : List Token) : Prop where
  reduces : Reduces raw clean
  headed : dropCommas raw = [] ∨ ∃ text rest, dropCommas raw = .word text :: rest

namespace Phrases

variable {raw clean raw' clean' : List Token}

theorem nil : Phrases [] [] := ⟨fun _ => rfl, .inl rfl⟩

theorem append (h : Phrases raw clean) (h' : Phrases raw' clean') :
    Phrases (raw ++ raw') (clean ++ clean') := by
  refine ⟨h.reduces.append h'.reduces, ?_⟩
  rw [dropCommas_append]
  obtain hnone | ⟨text, rest, heq⟩ := h.headed
  · rw [hnone]
    exact h'.headed
  · rw [heq]
    exact .inr ⟨text, _, rfl⟩

theorem of_word (text : String) (h : Reduces raw clean) :
    Phrases (.word text :: raw) (.word text :: clean) := by
  refine ⟨.cons ⟨by simp, fun _ => by simp [isEmptyGroup]⟩ h, .inr ⟨text, dropCommas raw, ?_⟩⟩
  rw [dropCommas, List.filter_cons_of_pos (by simp)]
  rfl

/-- Brackets around a phrase are an empty group just if the phrase is empty. -/
theorem group {opening closing : Char} (h : Phrases raw clean)
    (hgroup : ∀ token, isEmptyGroup (.mark opening) token = decide (token = .mark closing))
    (hclosing : ∀ token, isEmptyGroup (.mark closing) token = false)
    (hcommas : opening ≠ ',' ∧ closing ≠ ',') :
    Reduces (.mark opening :: (raw ++ [.mark closing])) (group opening clean closing) := by
  intro later
  have hdropped : dropCommas (.mark opening :: (raw ++ [.mark closing])) =
      .mark opening :: (dropCommas raw ++ [.mark closing]) := by
    simp [dropCommas, hcommas]
  rw [hdropped, List.cons_append, List.append_assoc, List.singleton_append]
  have hinner := h.reduces (.mark closing :: later)
  rw [dropEmptyGroups_cons hclosing] at hinner
  have hclean := h.reduces.significant
  rw [Source.significant] at hclean
  obtain hnone | ⟨text, rest, hword⟩ := h.headed
  · have hempty : clean = [] := by
      rw [← hclean, hnone]
      rfl
    rw [hnone, Source.group, if_pos hempty, List.nil_append, dropEmptyGroups, hgroup]
    simp
  · have hnonempty : clean ≠ [] := by
      rw [← hclean, hword, dropEmptyGroups_cons fun _ => by simp [isEmptyGroup]]
      exact List.cons_ne_nil _ _
    rw [Source.group, if_neg hnonempty, hword, List.cons_append, dropEmptyGroups, hgroup,
      if_neg (by simp), ← List.cons_append, ← hword, hinner]
    simp

end Phrases

theorem reads_arg : Reads arg false false fun arg tokens => tokens = arg.tokens := by
  refine .bind (reads_spaced reads_identifier) fun name => ?_
  refine .bind (reads_spaced reads_arrow) fun _ => ?_
  refine .bind_pure (reads_spaced (.orElse reads_literal reads_bare)) ?_
  rintro value _ rfl _ rfl _ rfl
  rfl

theorem phrases_arg (arg : Arg) : Phrases arg.tokens arg.tokens := by
  refine .of_word arg.name (.of_plain fun token hmem => ?_)
  simp only [List.mem_cons, List.not_mem_nil, or_false] at hmem
  obtain rfl | rfl := hmem <;> exact ⟨by simp, fun _ => by simp [isEmptyGroup]⟩

theorem reads_comma : Reads comma false false fun _ tokens => tokens = [.mark ','] :=
  .skip_bind skips_blanks fun _ => (reads_mark (by decide)).bind_pure fun _ _ h => h

theorem reads_commas : Reads (do let _ ← Parser.many comma) false false
    fun _ tokens => Phrases tokens [] := by
  refine .bind_pure (.many (R := fun _ tokens => Phrases tokens []) reads_comma .nil ?_)
    fun _ _ h => h
  rintro _ _ _ later rfl hlater
  exact ⟨fun more => hlater.reduces more, hlater.headed⟩

theorem reads_args : Reads args false false fun args tokens => Phrases tokens (args.flatMap Arg.tokens) := by
  have hitem : Reads (Parser.between blanks arg do let _ ← Parser.many comma) false false
      fun arg tokens => Phrases tokens arg.tokens := by
    refine .skip_bind skips_blanks fun _ => .bind reads_arg fun arg => ?_
    refine .bind reads_commas fun _ => .pure ?_
    rintro _ hcommas _ rfl
    simpa using (phrases_arg arg).append hcommas
  exact hitem.many .nil fun _ _ _ _ hfirst hlater => hfirst.append hlater

theorem reads_argList : Reads argList false false fun args tokens =>
    Reduces tokens (group '(' (args.flatMap Arg.tokens) ')') := by
  refine .bind (reads_spaced (reads_mark (by decide))) fun _ => .bind reads_args fun args => ?_
  refine .skip_bind skips_blanks fun _ => .bind (reads_mark (by decide)) fun _ => ?_
  refine .skip_bind skips_spaces fun _ => .pure ?_
  rintro _ rfl _ hargs _ rfl
  exact hargs.group (by simp [isEmptyGroup]) (by simp [isEmptyGroup]) (by decide)

/-- A comment is left out, anything else adds its tokens. -/
def itemTokens {α : Type} (tokens : α → List Token) (item : Option α) : List Token :=
  item.elim [] tokens

theorem flatMap_itemTokens {α : Type} (tokens : α → List Token) (items : List (Option α)) :
    items.flatMap (itemTokens tokens) = (items.filterMap id).flatMap tokens := by
  induction items with
  | nil => rfl
  | cons item items ih =>
    cases item with
    | none => exact ih
    | some a => exact congrArg (tokens a ++ ·) ih

theorem reads_children {child : Parser SourceNode}
    (hchild : Reads child false false fun node tokens => Phrases tokens node.tokens) :
    Reads (children child) false false
      fun nodes tokens => Phrases tokens (nodes.flatMap SourceNode.tokens) := by
  have hbreaks : Skips (do let _ ← Parser.many lineBreaks) :=
    skips_lineBreaks.many.bind fun _ => .pure _
  have hitem : Reads ((do comment; return none) <|> some <$> child) false false
      fun item tokens => Phrases tokens (itemTokens SourceNode.tokens item) :=
    .orElse (.skip_bind skips_comment fun _ => .pure .nil) (hchild.map fun _ _ h => h)
  refine .skip_bind skips_lineBreaks.many fun _ => .bind_pure
    (Reads.many (R := fun items tokens => Phrases tokens (items.flatMap (itemTokens SourceNode.tokens)))
      (.between skips_spaces hitem hbreaks) .nil fun _ _ _ _ hfirst hlater => hfirst.append hlater) ?_
  intro items tokens htokens
  rwa [← flatMap_itemTokens]

theorem reads_brace {c : Char} (hc : isMark c = true) :
    Reads (do let _ ← spaced (Parser.char c)) false false fun _ tokens => tokens = [.mark c] :=
  .bind_pure (reads_spaced (reads_mark hc)) fun _ _ h => h

theorem reads_childList {child : Parser SourceNode}
    (hchild : Reads child false false fun node tokens => Phrases tokens node.tokens) :
    Reads (childList child) false false
      fun nodes tokens => Reduces tokens (group '{' (nodes.flatMap SourceNode.tokens) '}') := by
  refine .bind (reads_brace (by decide)) fun _ => .bind (reads_children hchild) fun nodes => ?_
  refine .bind (reads_brace (by decide)) fun _ => .pure ?_
  rintro _ rfl _ hnodes _ rfl
  exact hnodes.group (by simp [isEmptyGroup]) (by simp [isEmptyGroup]) (by decide)

theorem reads_optional {α : Type} {p : Parser (List α)} {tokens : α → List Token}
    {opening closing : Char}
    (hp : Reads p false false fun as raw => Reduces raw (group opening (as.flatMap tokens) closing)) :
    Reads (optional p) false false
      fun as raw => Reduces raw (group opening ((as.getD []).flatMap tokens) closing) :=
  .optional (fun _ => rfl) hp

theorem reads_nodeUpTo (depth : Nat) :
    Reads (nodeUpTo depth) false false fun node tokens => Phrases tokens node.tokens := by
  induction depth with
  | zero =>
    intro cs node rest heq
    cases heq
  | succ depth ih =>
    have hcomment : Skips (optional comment) := fun pointed => .optional rfl (skips_comment pointed)
    refine .bind (reads_spaced reads_identifier) fun type => ?_
    refine .bind (reads_optional reads_argList) fun args => ?_
    refine .bind (reads_optional (reads_childList ih)) fun children => ?_
    refine .skip_bind hcomment fun _ => .pure ?_
    rintro childTokens hchildren argTokens hargs _ rfl
    rw [SourceNode.tokens, SourceNode.tokensList_eq, List.append_nil]
    exact .of_word type (hargs.append hchildren)

theorem reads_node : Reads node false false fun node tokens => Phrases tokens node.tokens :=
  fun cs => reads_nodeUpTo (cs.length + 1) cs

theorem word_eq_some {word cs rest : List Char} {u : Unit}
    (h : Parser.word word cs = some (u, rest)) : cs = word ++ rest := by
  induction word generalizing cs with
  | nil =>
    cases h
    rfl
  | cons c word ih =>
    obtain ⟨d, mid, hfirst, hrest⟩ := bind_eq_some h
    obtain ⟨hd, rfl⟩ := satisfy_eq_some hfirst
    obtain rfl : d = c := of_decide_eq_true hd
    rw [ih hrest, List.cons_append]

theorem isBlank_of_isWordChar {c : Char} (h : isWordChar c = true) : isBlank c = false :=
  Bool.eq_false_iff.mpr fun hblank => Bool.false_ne_true ((isWordChar_of_isBlank hblank).symm.trans h)

/-- The word `tree` ends where no further character of a word follows. Where one does, it is the first one
of the name. -/
theorem heading_tokens {mid rest : List Char} {name : String}
    (h : spaced identifier (mid.dropWhile isSpace) = some (name, rest)) :
    rest <:+ mid ∧ ∃ glued : Bool, scan false ("tree".toList ++ mid) =
      (if glued then [.word ("tree" ++ name)] else [.word "tree", .word name]) ++ scan false rest := by
  obtain ⟨hsuffix, _, hname, rfl⟩ := reads_spaced reads_identifier _ _ _ h
  refine ⟨hsuffix.trans (List.dropWhile_suffix _), ?_⟩
  rw [scan_dropWhile fun _ => isBlank_of_isSpace] at hname
  have hletters : ∀ c ∈ ['r', 'e', 'e'], isWordChar c = true := List.all_eq_true.mp (by decide)
  have hinitial : isLetter 't' = true := by decide
  have hword := @scan_word 't' (['r', 'e', 'e'] ++ mid) hinitial
  rw [List.takeWhile_append_of_pos hletters, List.dropWhile_append_of_pos hletters] at hword
  by_cases hends : ∀ c ∈ mid.head?, isWordChar c = false
  · rw [takeWhile_of_head hends, dropWhile_of_head hends, hname] at hword
    exact ⟨false, hword⟩
  -- What goes on with the word begins the name, and a name begins with a letter.
  · obtain ⟨c, more, rfl, hc⟩ : ∃ c more, mid = c :: more ∧ isWordChar c = true := by
      cases mid with
      | nil => simp at hends
      | cons c more => exact ⟨c, more, rfl, by simpa using hends⟩
    have hspace := isSpace_of_not_isBlank (isBlank_of_isWordChar hc)
    have hletter : isLetter c = true := by
      by_contra hother
      have hnone : identifier (c :: more) = none :=
        identifier_of_head (head_cons (Bool.eq_false_iff.mpr hother) more)
      have hskip := dropWhile_of_head (head_cons hspace more)
      rw [spaced_of_none (by rw [hskip, hskip, hnone])] at h
      cases h
    rw [scan_word hletter, List.singleton_append, List.cons.injEq, Token.word.injEq] at hname
    rw [List.takeWhile_cons_of_pos hc, List.dropWhile_cons_of_pos hc, hname.2] at hword
    refine ⟨true, hword.trans ?_⟩
    rw [if_pos rfl, List.singleton_append, ← hname.1, ← String.ofList_toList (s := "tree"),
      ← String.ofList_append]
    rfl

theorem reads_definition : Reads definition false false
    fun definition tokens => ∃ glued, Phrases tokens (definition.tokens glued) := by
  refine .skip_bind skips_blanks fun _ => ?_
  intro cs definition rest heq
  obtain ⟨_, mid, htree, hbehind⟩ := bind_eq_some heq
  obtain rfl := word_eq_some htree
  obtain ⟨_, trimmed, hspaces, hheading⟩ := bind_eq_some hbehind
  cases hspaces
  obtain ⟨name, body, hname, hbody⟩ := bind_eq_some hheading
  obtain ⟨hmid, glued, hscan⟩ := heading_tokens hname
  have hreads : Reads (do let _ ← spaced (Parser.char '='); let root ← node; return ⟨name, root⟩) false
      false fun (definition : Definition) tokens => definition.name = name ∧
        Reduces tokens (.mark '=' :: definition.root.tokens) := by
    refine .bind (reads_spaced (reads_mark (by decide))) fun _ => .bind_pure reads_node ?_
    rintro root tokens hroot _ rfl
    exact ⟨rfl, .cons ⟨by simp, fun _ => by simp [isEmptyGroup]⟩ hroot.reduces⟩
  obtain ⟨hrest, tokens, hscan', rfl, htokens⟩ := hreads body definition rest hbody
  refine ⟨(hrest.trans hmid).trans (List.suffix_append _ _),
    (if glued then [.word ("tree" ++ definition.name)] else [.word "tree", .word definition.name]) ++
      tokens, ?_, glued, ?_⟩
  · rw [hscan, hscan', List.append_assoc]
  · cases glued with
    | true => exact .of_word _ htokens
    | false => exact .of_word _ (.cons ⟨by simp, fun _ => by simp [isEmptyGroup]⟩ htokens)

def mergedTokens (glued : List Bool) (definitions : List Definition) : List Token :=
  (List.zipWith Definition.tokens glued definitions).flatten

theorem reads_definitionList : Reads definitionList false false fun definitions tokens =>
    ∃ glued : List Bool, glued.length = definitions.length ∧
      Phrases tokens (mergedTokens glued definitions) := by
  have hcomments : Skips commentBlock := .between skips_blanks skips_comment skips_blanks
  have hitem : Reads ((do commentBlock; return none) <|> some <$> definition) false false
      fun item tokens => ∃ glued : List Bool, glued.length = item.toList.length ∧
        Phrases tokens (mergedTokens glued item.toList) := by
    refine .orElse (.skip_bind hcomments fun _ => .pure ⟨[], rfl, .nil⟩) ?_
    refine reads_definition.map fun definition tokens ⟨glued, htokens⟩ => ⟨[glued], rfl, ?_⟩
    simpa [mergedTokens] using htokens
  refine .bind (.many (R := fun items tokens => ∃ glued : List Bool,
      glued.length = (items.filterMap id).length ∧
        Phrases tokens (mergedTokens glued (items.filterMap id))) hitem ⟨[], rfl, .nil⟩ ?_)
    fun items => .skip_bind skips_blanks fun _ => .pure fun tokens h => ?_
  · rintro item items first later ⟨glued, hlength, hfirst⟩ ⟨glued', hlength', hlater⟩
    have hitems : (item :: items).filterMap id = item.toList ++ items.filterMap id := by
      cases item <;> rfl
    refine ⟨glued ++ glued', ?_, ?_⟩
    · rw [hitems, List.length_append, List.length_append, hlength, hlength']
    · rw [hitems, mergedTokens, List.zipWith_append hlength, List.flatten_append]
      exact hfirst.append hlater
  · rwa [List.append_nil]

theorem dropEmptyGroups_sublist (tokens : List Token) : (dropEmptyGroups tokens).Sublist tokens := by
  induction tokens using dropEmptyGroups.induct with
  | case1 first second rest hempty ih =>
    rw [dropEmptyGroups, if_pos hempty]
    exact (ih.cons second).cons first
  | case2 first second rest hempty ih =>
    rw [dropEmptyGroups, if_neg hempty]
    exact ih.cons_cons first
  | case3 rest hshort =>
    rw [dropEmptyGroups]
    exact hshort

theorem significant_sublist (tokens : List Token) : (significant tokens).Sublist tokens :=
  (dropEmptyGroups_sublist _).trans List.filter_sublist

theorem mergedTokens_of_apart {glued : List Bool} {definitions : List Definition}
    (hlength : glued.length = definitions.length)
    (hapart : ∀ definition ∈ definitions,
      .word ("tree" ++ definition.name) ∉ mergedTokens glued definitions) :
    mergedTokens glued definitions = tokens ⟨definitions⟩ := by
  induction definitions generalizing glued with
  | nil =>
    obtain rfl := List.length_eq_zero_iff.mp hlength
    rfl
  | cons definition definitions ih =>
    obtain _ | ⟨merged, glued⟩ := glued
    · cases hlength
    have hcons : mergedTokens (merged :: glued) (definition :: definitions) =
        definition.tokens merged ++ mergedTokens glued definitions := rfl
    rw [hcons] at hapart ⊢
    obtain ⟨hhead, htail⟩ := List.forall_mem_cons.mp hapart
    have hmerged : merged = false := by
      by_contra hglued
      rw [Bool.not_eq_false] at hglued
      exact hhead (by simp [hglued, Definition.tokens])
    rw [hmerged, ih (Nat.succ.inj hlength) fun other hmem hword =>
      htail other hmem (List.mem_append_right _ hword)]
    rfl

/-- What an accepted text says, without commas and empty groups, is what the definitions say, in their
order. The one exception is that the word `tree` and the name of a definition may form one word, and so
the tokens are exactly those of the definitions where no word is `tree` with the name of a definition
behind it. -/
theorem parse_accounts {text : String} {source : Source} (h : parse text = .ok source) :
    (∃ glued : List Bool, glued.length = source.definitions.length ∧
      significant (scan false text.toList) = mergedTokens glued source.definitions) ∧
    ((∀ definition ∈ source.definitions,
        .word ("tree" ++ definition.name) ∉ scan false text.toList) →
      significant (scan false text.toList) = source.tokens) := by
  have hmerged : ∃ glued : List Bool, glued.length = source.definitions.length ∧
      significant (scan false text.toList) = mergedTokens glued source.definitions := by
    rw [parse, readFront] at h
    cases hread : definitionList text.toList with
    | none =>
      -- Nothing is read of a text, so it is empty.
      rw [hread] at h
      cases htext : text.toList with
      | nil =>
        rw [htext] at h
        cases h
        exact ⟨[], rfl, by rw [scan]; rfl⟩
      | cons c cs =>
        rw [htext] at h
        cases h
    | some read =>
      obtain ⟨definitions, rest⟩ := read
      obtain ⟨_, tokens, hscan, glued, hlength, htokens⟩ := reads_definitionList _ _ _ hread
      rw [hread] at h
      cases rest with
      | cons c cs => cases h
      | nil =>
        cases h
        rw [scan, List.append_nil] at hscan
        exact ⟨glued, hlength, hscan ▸ htokens.reduces.significant⟩
  refine ⟨hmerged, fun hapart => ?_⟩
  obtain ⟨glued, hlength, heq⟩ := hmerged
  rw [heq]
  refine mergedTokens_of_apart hlength fun definition hmem hword => hapart definition hmem ?_
  rw [← heq] at hword
  exact (significant_sublist _).subset hword

def bellText : String := "tree bell = Ring (tone <- \"a\", pause <- -1.5,) { Strike () } # over\n"

def bellSource : Source :=
  ⟨[⟨"bell", .mk "Ring" [⟨"tone", .literal "a"⟩, ⟨"pause", .bare "-1.5"⟩] [.mk "Strike" [] []]⟩]⟩

theorem parse_bellText : parse bellText = .ok bellSource :=
  parse_of_readFront (by decide +kernel)

theorem scan_bellText : scan false bellText.toList =
    [.word "tree", .word "bell", .mark '=', .word "Ring", .mark '(', .word "tone", .arrow,
      .value (.literal "a"), .mark ',', .word "pause", .arrow, .value (.bare "-1.5"), .mark ',',
      .mark ')', .mark '{', .word "Strike", .mark '(', .mark ')', .mark '}'] := by
  decide +kernel

theorem bellText_accounted : parse bellText = .ok bellSource ∧
    significant (scan false bellText.toList) = bellSource.tokens := by
  refine ⟨parse_bellText, (parse_accounts parse_bellText).2 ?_⟩
  rw [scan_bellText]
  decide

/-- A name may follow the word `tree` at once, and then there is no word `tree`. -/
theorem treehouse_accepted :
    parse "treehouse=Hut" = .ok ⟨[⟨"house", .mk "Hut" [] []⟩]⟩ ∧
      significant (scan false "treehouse=Hut".toList) ≠ tokens ⟨[⟨"house", .mk "Hut" [] []⟩]⟩ := by
  have hscan : scan false "treehouse=Hut".toList = [.word "treehouse", .mark '=', .word "Hut"] := by
    decide +kernel
  refine ⟨parse_of_readFront (by decide +kernel), ?_⟩
  rw [hscan]
  decide

end Source

end BehaviorTree
