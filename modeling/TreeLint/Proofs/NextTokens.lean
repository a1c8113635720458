import Mathlib.Data.List.Destutter
import Mathlib.Data.List.Find
import TreeLint.Proofs.DocumentOrder
import TreeLint.Proofs.SelectedToken

/-!
# The token behind a token

The next significant token is looked for by offset, from the first token of the tree on: one that
starts where the token ends, or later, and does not count as the same token. Offsets order tokens
that have a text. A token without text stands at an offset together with any other, and one that
comes before it in the document passes for one behind it. Two of them that are kept as one token
count as the same, though, and neither is found from the other.

So the search goes back exactly if the token is empty and another significant empty token in front
of it stands at the same offset; then it finds the first of these. Otherwise it finds the first
significant token behind, as the document has them, unless that is the same token once more, which
is passed over. Asking the token that was found, and so on, ends unless two significant empty tokens
stand together from there on and are not the same: of two that do, each is behind the other, and the
search never gets past them.

Which tokens are kept as one is never restricted here: all of it holds for any sharing.
-/

namespace TreeLint

namespace TokenCursor

theorem isSame_iff {s : Sharing} {t u : TokenCursor} :
    t.isSame s u = true ↔ t.start = u.start ∧ s.home t.path = s.home u.path := by
  rw [isSame, Bool.and_eq_true, beq_iff_eq, beq_iff_eq]

theorem isSame_self (s : Sharing) (t : TokenCursor) : t.isSame s t = true :=
  isSame_iff.2 ⟨rfl, rfl⟩

/-- Of two tokens that are not the same, one is not the same as a third. -/
theorem isSame_or_of_not_same {s : Sharing} {t u : TokenCursor} (h : t.isSame s u = false)
    (v : TokenCursor) : t.isSame s v = false ∨ u.isSame s v = false := by
  rw [← Bool.not_eq_true, isSame_iff] at h ⊢
  rw [← Bool.not_eq_true, isSame_iff, ← not_and_or]
  rintro ⟨⟨hstart, hhome⟩, hstart', hhome'⟩
  exact h ⟨hstart.trans hstart'.symm, hhome.trans hhome'.symm⟩

/-- A significant token without text at an offset. -/
structure EmptyAt (t : TokenCursor) (offset : Nat) : Prop where
  significant : t.isTrivia = false
  width : t.token.width = 0
  start : t.start = offset

instance (t : TokenCursor) (offset : Nat) : Decidable (t.EmptyAt offset) :=
  decidable_of_iff (t.isTrivia = false ∧ t.token.width = 0 ∧ t.start = offset)
    ⟨fun h => ⟨h.1, h.2.1, h.2.2⟩, fun h => ⟨h.significant, h.width, h.start⟩⟩

/-- An empty token and another significant empty token at its offset. -/
structure Together (s : Sharing) (t o : TokenCursor) : Prop where
  empty : t.token.width = 0
  emptyAt : o.EmptyAt t.start
  other : o.isSame s t = false

instance (s : Sharing) (t o : TokenCursor) : Decidable (t.Together s o) :=
  decidable_of_iff (t.token.width = 0 ∧ o.EmptyAt t.start ∧ o.isSame s t = false)
    ⟨fun h => ⟨h.1, h.2.1, h.2.2⟩, fun h => ⟨h.empty, h.emptyAt, h.other⟩⟩

/-- What is found after some searches, each for the token behind the one found before. -/
def follow (s : Sharing) (t : TokenCursor) : Nat → Option TokenCursor
  | 0 => some t
  | n + 1 => (t.nextSignificantIn? s).bind fun next => next.follow s n

/-- A token and the significant ones among some tokens behind it, each unless it is the same as the
last one before it. -/
def runThrough (s : Sharing) (t : TokenCursor) (behind : List TokenCursor) : List TokenCursor :=
  (behind.filter fun u => !u.isTrivia).destutter' (fun t u => u.isSame s t = false) t

end TokenCursor

/-- Two significant empty tokens of a tree that are not the same stand at an offset. -/
def Crowded (s : Sharing) (root : Node) (offset : Nat) : Prop :=
  ∃ t ∈ (Cursor.ofRoot root).tokens, ∃ u ∈ (Cursor.ofRoot root).tokens,
    t.isSame s u = false ∧ t.EmptyAt offset ∧ u.EmptyAt offset

theorem Crowded.exists_other {s : Sharing} {root : Node} {offset : Nat}
    (h : Crowded s root offset) (t : TokenCursor) :
    ∃ z ∈ (Cursor.ofRoot root).tokens, z.isSame s t = false ∧ z.EmptyAt offset := by
  obtain ⟨x, hx, y, hy, hother, hxat, hyat⟩ := h
  rcases TokenCursor.isSame_or_of_not_same hother t with hxt | hyt
  · exact ⟨x, hx, hxt, hxat⟩
  · exact ⟨y, hy, hyt, hyat⟩

/-! ## One search -/

namespace TokenCursor

variable {s : Sharing} {root : Node} {before behind : List TokenCursor} {t : TokenCursor}

theorem together_of_find? {o : TokenCursor}
    (hfound : (before.find? fun o => t.Together s o) = some o) : t.Together s o := by
  have htrue := List.find?_some hfound
  exact of_decide_eq_true htrue

theorem find?_together_eq_none_iff : (before.find? fun o => t.Together s o) = none ↔
    ∀ o ∈ before, ¬t.Together s o := by
  rw [List.find?_eq_none]
  exact forall₂_congr fun o _ => not_congr decide_eq_true_iff

/-- A search for two things finds what a search for one of them does if that has the other. -/
theorem find?_and_eq_iff {α : Type} {p q : α → Bool} {xs : List α} :
    (xs.find? fun x => p x && q x) = xs.find? p ↔ ∀ x, xs.find? p = some x → q x = true := by
  induction xs with
  | nil => simp
  | cons x rest ih =>
      cases hp : p x with
      | false => simpa [hp] using ih
      | true =>
          cases hq : q x with
          | true => simp [hp, hq]
          | false =>
              have hnot : (rest.find? fun x => p x && q x) ≠ some x := fun hfound => by
                have hboth := List.find?_some hfound
                rw [hq, Bool.and_false] at hboth
                cases hboth
              simpa [hp, hq] using hnot

section Order

variable (hsplit : (Cursor.ofRoot root).tokens = before ++ t :: behind)

include hsplit

theorem mem_of_split : t ∈ (Cursor.ofRoot root).tokens :=
  hsplit ▸ List.mem_append_right _ List.mem_cons_self

theorem mem_of_mem_before {o : TokenCursor} (ho : o ∈ before) :
    o ∈ (Cursor.ofRoot root).tokens :=
  hsplit ▸ List.mem_append_left _ ho

theorem rel_of_split {R : TokenCursor → TokenCursor → Prop}
    (hordered : (Cursor.ofRoot root).tokens.Pairwise R) :
    (∀ o ∈ before, R o t) ∧ ∀ u ∈ behind, R t u := by
  rw [hsplit, List.pairwise_append, List.pairwise_cons] at hordered
  obtain ⟨-, ⟨hbehind, -⟩, hbefore⟩ := hordered
  exact ⟨fun o ho => hbefore o ho t List.mem_cons_self, hbehind⟩

theorem path_lt_of_mem_before {o : TokenCursor} (ho : o ∈ before) : o.path < t.path :=
  (rel_of_split hsplit (Cursor.ofRoot root).pairwise_path_tokens).1 o ho

theorem path_lt_of_mem_behind {u : TokenCursor} (hu : u ∈ behind) : t.path < u.path :=
  (rel_of_split hsplit (Cursor.ofRoot root).pairwise_path_tokens).2 u hu

theorem stop_le_of_mem_before {o : TokenCursor} (ho : o ∈ before) :
    o.start + o.token.width ≤ t.start :=
  (rel_of_split hsplit (List.pairwise_map.1 (Cursor.tiles_tokens_ofRoot root).pairwise)).1 o ho

theorem stop_le_of_mem_behind {u : TokenCursor} (hu : u ∈ behind) :
    t.start + t.token.width ≤ u.start :=
  (rel_of_split hsplit (List.pairwise_map.1 (Cursor.tiles_tokens_ofRoot root).pairwise)).2 u hu

/-- A token in front of another starts where that one ends only if both are empty. -/
theorem together_iff_of_mem_before {o : TokenCursor} (ho : o ∈ before) :
    t.Together s o ↔
      t.start + t.token.width ≤ o.start ∧ o.isTrivia = false ∧ o.isSame s t = false := by
  have hstop := stop_le_of_mem_before hsplit ho
  constructor
  · rintro ⟨hempty, ⟨hsignificant, -, hstart⟩, hother⟩
    exact ⟨by omega, hsignificant, hother⟩
  · rintro ⟨hbehind, hsignificant, hother⟩
    exact ⟨by omega, ⟨hsignificant, by omega, by omega⟩, hother⟩

/-- Among the tokens of a tree the search takes the first that starts no earlier than its own ends,
is significant and is another. -/
theorem nextSignificantIn?_eq_find? (h : root.text.utf8ByteSize ≤ maxOffset) :
    t.nextSignificantIn? s = (Cursor.ofRoot root).tokens.find? fun other =>
      t.start + t.token.width ≤ other.start && !other.isTrivia && !other.isSame s t := by
  have ht := mem_of_split hsplit
  have hroot : t.parent.root = Cursor.ofRoot root := (stands_of_mem_tokens ht).root_eq
  have hstop : t.span.stop = t.start + t.token.width :=
    Nat.min_eq_left (Nat.le_trans (Cursor.stop_le_of_mem_tokens ht) h)
  rw [nextSignificantIn?, hroot, hstop]

/-- Among the tokens before a token the search takes those that stand together with it, and among
those behind it all that are significant and not the same token once more. -/
theorem nextSignificantIn?_eq (h : root.text.utf8ByteSize ≤ maxOffset) :
    t.nextSignificantIn? s = (before.find? fun o => t.Together s o).or
      (behind.find? fun u => !u.isTrivia && !u.isSame s t) := by
  have hbefore : ∀ o ∈ before, (decide (t.start + t.token.width ≤ o.start) && !o.isTrivia &&
      !o.isSame s t) = decide (t.Together s o) := by
    intro o ho
    rw [Bool.eq_iff_iff, decide_eq_true_iff, together_iff_of_mem_before hsplit ho]
    simp [and_assoc]
  have hbehind : ∀ u ∈ behind, (decide (t.start + t.token.width ≤ u.start) && !u.isTrivia &&
      !u.isSame s t) = (!u.isTrivia && !u.isSame s t) := by
    intro u hu
    rw [decide_eq_true (stop_le_of_mem_behind hsplit hu), Bool.true_and]
  rw [nextSignificantIn?_eq_find? hsplit h, hsplit, List.find?_append,
    List.find?_cons_of_neg (by simp [isSame_self]), List.find?_congr hbefore,
    List.find?_congr hbehind]

/-- The search goes forward exactly if nothing in front stands together with the token. -/
theorem path_lt_nextSignificantIn?_iff (h : root.text.utf8ByteSize ≤ maxOffset) :
    (∀ u, t.nextSignificantIn? s = some u → t.path < u.path) ↔
      ∀ o ∈ before, ¬t.Together s o := by
  rw [nextSignificantIn?_eq hsplit h, ← find?_together_eq_none_iff]
  cases hfirst : before.find? fun o => t.Together s o with
  | none =>
      rw [Option.none_or]
      exact iff_of_true
        (fun u hu => path_lt_of_mem_behind hsplit (List.mem_of_find?_eq_some hu)) rfl
  | some first =>
      rw [Option.some_or]
      have hback := path_lt_of_mem_before hsplit (List.mem_of_find?_eq_some hfirst)
      exact iff_of_false (fun hforward => List.lt_asymm hback (hforward first rfl))
        (Option.some_ne_none first)

/-- The search finds what is behind a token in the document exactly if nothing stands together with
it in front and it is not the same token once more that is behind. -/
theorem nextSignificantIn?_eq_behind_iff (h : root.text.utf8ByteSize ≤ maxOffset) :
    t.nextSignificantIn? s = behind.find? (fun u => !u.isTrivia) ↔
      (∀ o ∈ before, ¬t.Together s o) ∧
        ∀ u, behind.find? (fun u => !u.isTrivia) = some u → u.isSame s t = false := by
  constructor
  · intro hbehind
    have hapart : ∀ o ∈ before, ¬t.Together s o :=
      (path_lt_nextSignificantIn?_iff hsplit h).1 fun u hu =>
        path_lt_of_mem_behind hsplit (List.mem_of_find?_eq_some (hbehind.symm.trans hu))
    rw [nextSignificantIn?_eq hsplit h, find?_together_eq_none_iff.2 hapart, Option.none_or,
      find?_and_eq_iff] at hbehind
    exact ⟨hapart, fun u hu => by simpa using hbehind u hu⟩
  · rintro ⟨hapart, hother⟩
    rw [nextSignificantIn?_eq hsplit h, find?_together_eq_none_iff.2 hapart, Option.none_or,
      find?_and_eq_iff]
    exact fun u hu => by rw [hother u hu, Bool.not_false]

end Order

/-! ## From trivia -/

theorem eq_of_path_eq {u : TokenCursor} (ht : t ∈ (Cursor.ofRoot root).tokens)
    (hu : u ∈ (Cursor.ofRoot root).tokens) (h : t.path = u.path) : t = u := by
  have hdistinct : ((Cursor.ofRoot root).tokens.map TokenCursor.path).Nodup :=
    List.pairwise_map.2 ((Cursor.ofRoot root).pairwise_path_tokens.imp Std.ne_of_lt)
  exact List.inj_on_of_nodup_map hdistinct ht hu h

end TokenCursor

/-- Only equal tokens of a tree are kept as one. -/
def Sharing.Fits (s : Sharing) (root : Node) : Prop :=
  ∀ t ∈ (Cursor.ofRoot root).tokens, ∀ u ∈ (Cursor.ofRoot root).tokens,
    s.home t.path = s.home u.path → t.token = u.token

theorem Sharing.fits_apart (root : Node) : Sharing.apart.Fits root :=
  fun _ ht _ hu h => congrArg TokenCursor.token (TokenCursor.eq_of_path_eq ht hu h)

namespace TokenCursor

variable {s : Sharing} {root : Node} {before behind : List TokenCursor} {t : TokenCursor}

/-- What is significant is never kept as one with trivia, so from trivia the search is the same
whichever tokens are kept as one. -/
theorem nextSignificantIn?_of_isTrivia (hs : s.Fits root) (ht : t ∈ (Cursor.ofRoot root).tokens)
    (htrivia : t.isTrivia = true) : t.nextSignificantIn? s = t.nextSignificant? := by
  have hother : ∀ {s : Sharing}, s.Fits root → ∀ u ∈ (Cursor.ofRoot root).tokens,
      u.isTrivia = false → u.isSame s t = false := by
    intro s hs u hu hsignificant
    rw [← Bool.not_eq_true, isSame_iff]
    rintro ⟨-, hhome⟩
    rw [isTrivia, hs u hu t ht hhome, ← isTrivia, htrivia] at hsignificant
    cases hsignificant
  have hroot : t.parent.root = Cursor.ofRoot root := (stands_of_mem_tokens ht).root_eq
  rw [nextSignificant?, nextSignificantIn?, nextSignificantIn?, hroot]
  refine List.find?_congr fun u hu => ?_
  cases hu' : u.isTrivia with
  | true => rw [Bool.not_true, Bool.and_false, Bool.false_and, Bool.false_and]
  | false => rw [hother hs u hu hu', hother (Sharing.fits_apart root) u hu hu']

/-! ## Many searches -/

/-- A significant token stands together with none in front of it unless its offset is crowded. -/
theorem not_together_of_uncrowded (hsplit : (Cursor.ofRoot root).tokens = before ++ t :: behind)
    (hsignificant : t.isTrivia = false) (hfree : ¬Crowded s root t.start) :
    ∀ o ∈ before, ¬t.Together s o := by
  rintro o ho ⟨hempty, hat, hother⟩
  exact hfree ⟨o, mem_of_mem_before hsplit ho, t, mem_of_split hsplit, hother, hat,
    ⟨hsignificant, hempty, rfl⟩⟩

/-- Trivia and the same token once more are passed over. -/
theorem runThrough_append {front : List TokenCursor}
    (hfront : ∀ o ∈ front, o.isTrivia = false → o.isSame s t = true) (rest : List TokenCursor) :
    t.runThrough s (front ++ rest) = t.runThrough s rest := by
  induction front with
  | nil => rfl
  | cons o front ih =>
      obtain ⟨ho, hfront⟩ := List.forall_mem_cons.1 hfront
      rw [← ih hfront, runThrough, runThrough, List.cons_append]
      cases htrivia : o.isTrivia with
      | true => rw [List.filter_cons_of_neg (by simp [htrivia])]
      | false =>
          rw [List.filter_cons_of_pos (by simp [htrivia]), List.destutter'_cons_neg]
          simpa using ho htrivia

theorem runThrough_cons {u : TokenCursor} (hsignificant : u.isTrivia = false)
    (hother : u.isSame s t = false) (rest : List TokenCursor) :
    t.runThrough s (u :: rest) = t :: u.runThrough s rest := by
  rw [runThrough, List.filter_cons_of_pos (by simp [hsignificant])]
  exact List.destutter'_cons_pos _ hother

/-- Where every token is kept apart, no significant one is passed over. -/
theorem runThrough_apart (hsplit : (Cursor.ofRoot root).tokens = before ++ t :: behind) :
    t.runThrough .apart behind = t :: behind.filter fun u => !u.isTrivia := by
  have hordered : (t :: behind).Pairwise fun t u => t.path < u.path := by
    have hall := (Cursor.ofRoot root).pairwise_path_tokens
    rw [hsplit] at hall
    exact hall.sublist (List.sublist_append_right _ _)
  have hother : ∀ {t u : TokenCursor}, t.path < u.path → u.isSame .apart t = false := by
    intro t u hlt
    rw [← Bool.not_eq_true, isSame_iff]
    exact fun hsame => (Std.ne_of_lt hlt).symm hsame.2
  have hkept : (t :: behind.filter fun u => !u.isTrivia).Pairwise fun t u =>
      u.isSame .apart t = false := (hordered.imp hother).sublist (List.filter_sublist.cons_cons t)
  exact List.destutter'_of_isChain_cons _ _ hkept.isChain

/-- What is found behind a token is the next one of the run, and the run goes on from there. -/
theorem runThrough_cases (hsplit : (Cursor.ofRoot root).tokens = before ++ t :: behind) :
    ((behind.find? fun u => !u.isTrivia && !u.isSame s t) = none ∧ t.runThrough s behind = [t]) ∨
      ∃ u front rest, (behind.find? fun u => !u.isTrivia && !u.isSame s t) = some u ∧
        t.runThrough s behind = t :: u.runThrough s rest ∧ u.isTrivia = false ∧
        t.start + t.token.width ≤ u.start ∧
        (Cursor.ofRoot root).tokens = (before ++ t :: front) ++ u :: rest := by
  cases hfound : behind.find? fun u => !u.isTrivia && !u.isSame s t with
  | none =>
      have hpassed : ∀ o ∈ behind, o.isTrivia = false → o.isSame s t = true :=
        fun o ho hsignificant => by simpa [hsignificant] using List.find?_eq_none.1 hfound o ho
      have hrun := runThrough_append hpassed []
      rw [List.append_nil] at hrun
      exact .inl ⟨rfl, hrun⟩
  | some u =>
      obtain ⟨hu, front, rest, rfl, hfront⟩ := List.find?_eq_some_iff_append.1 hfound
      rw [Bool.and_eq_true, Bool.not_eq_true', Bool.not_eq_true'] at hu
      have hpassed : ∀ o ∈ front, o.isTrivia = false → o.isSame s t = true :=
        fun o ho hsignificant => by simpa [hsignificant] using hfront o ho
      refine .inr ⟨u, front, rest, rfl, ?_, hu.1, ?_, ?_⟩
      · rw [runThrough_append hpassed, runThrough_cons hu.1 hu.2]
      · exact stop_le_of_mem_behind hsplit (List.mem_append_right _ List.mem_cons_self)
      · rw [hsplit, List.append_assoc, List.cons_append]

/-- Away from crowded offsets, the searches run through the significant tokens behind. -/
theorem follow_of_uncrowded (h : root.text.utf8ByteSize ≤ maxOffset)
    (hsplit : (Cursor.ofRoot root).tokens = before ++ t :: behind)
    (hapart : ∀ o ∈ before, ¬t.Together s o)
    (hfree : ∀ offset, t.start + t.token.width ≤ offset → ¬Crowded s root offset) (n : Nat) :
    t.follow s n = (t.runThrough s behind)[n]? := by
  induction n generalizing before t behind with
  | zero =>
      rcases runThrough_cases hsplit with ⟨-, hrun⟩ | ⟨_, _, _, -, hrun, -⟩
      · rw [hrun]
        rfl
      · rw [hrun]
        rfl
  | succ n ih =>
      have hnext := nextSignificantIn?_eq (s := s) hsplit h
      rw [find?_together_eq_none_iff.2 hapart, Option.none_or] at hnext
      rw [follow, hnext]
      rcases runThrough_cases hsplit with
        ⟨hnone, hrun⟩ | ⟨u, front, rest, hfound, hrun, hsignificant, hstart, hsplit'⟩
      · rw [hnone, hrun]
        rfl
      · rw [hfound, hrun, List.getElem?_cons_succ]
        exact ih hsplit'
          (not_together_of_uncrowded hsplit' hsignificant (hfree u.start hstart))
          fun offset hle => hfree offset (by omega)

/-- In front of a crowded offset something is found, and it ends in front of the offset as well. -/
theorem exists_next_of_crowded (h : root.text.utf8ByteSize ≤ maxOffset)
    (ht : t ∈ (Cursor.ofRoot root).tokens) {offset : Nat} (hcrowded : Crowded s root offset)
    (hle : t.start + t.token.width ≤ offset) :
    ∃ u ∈ (Cursor.ofRoot root).tokens, t.nextSignificantIn? s = some u ∧
      u.start + u.token.width ≤ offset := by
  obtain ⟨before, behind, hsplit⟩ := List.append_of_mem ht
  obtain ⟨z, hz, hother, hsignificant, hwidth, hstart⟩ := hcrowded.exists_other t
  have hfits : (decide (t.start + t.token.width ≤ z.start) && !z.isTrivia && !z.isSame s t) =
      true := by
    rw [hstart, decide_eq_true hle, hsignificant, hother]
    rfl
  cases hnext : t.nextSignificantIn? s with
  | none =>
      rw [nextSignificantIn?_eq_find? hsplit h, List.find?_eq_none] at hnext
      exact absurd hfits (hnext z hz)
  | some u =>
      rw [nextSignificantIn?_eq_find? hsplit h] at hnext
      obtain ⟨-, front, rest, hsplit', hfront⟩ := List.find?_eq_some_iff_append.1 hnext
      refine ⟨u, mem_of_split hsplit', rfl, ?_⟩
      rw [hsplit', List.mem_append, List.mem_cons] at hz
      rcases hz with hzfront | rfl | hzrest
      · have hpassed := hfront z hzfront
        rw [hfits] at hpassed
        cases hpassed
      · omega
      · have hstop := stop_le_of_mem_behind hsplit' hzrest
        omega

/-- The searches never get past a crowded offset. -/
theorem follow_ne_none_of_crowded (h : root.text.utf8ByteSize ≤ maxOffset)
    (ht : t ∈ (Cursor.ofRoot root).tokens) {offset : Nat} (hcrowded : Crowded s root offset)
    (hle : t.start + t.token.width ≤ offset) (n : Nat) : t.follow s n ≠ none := by
  induction n generalizing t with
  | zero => exact Option.some_ne_none t
  | succ n ih =>
      obtain ⟨u, hu, hnext, hstop⟩ := exists_next_of_crowded h ht hcrowded hle
      rw [follow, hnext]
      exact ih hu hstop

theorem exists_follow_eq_none (h : root.text.utf8ByteSize ≤ maxOffset)
    (hsplit : (Cursor.ofRoot root).tokens = before ++ t :: behind)
    (hfree : ∀ offset, t.start + t.token.width ≤ offset → ¬Crowded s root offset) :
    ∃ n, t.follow s n = none := by
  -- from a token that stands together with none in front of it, the searches run through the list
  have hrun : ∀ {before behind t}, (Cursor.ofRoot root).tokens = before ++ t :: behind →
      (∀ o ∈ before, ¬t.Together s o) →
      (∀ offset, t.start + t.token.width ≤ offset → ¬Crowded s root offset) →
      ∃ n, t.follow s n = none := by
    intro before behind t hsplit hapart hfree
    refine ⟨(t.runThrough s behind).length, ?_⟩
    rw [follow_of_uncrowded h hsplit hapart hfree, List.getElem?_eq_none (Nat.le_refl _)]
  cases hfirst : before.find? fun o => t.Together s o with
  | none =>
      exact hrun hsplit (find?_together_eq_none_iff.1 hfirst) hfree
  | some o =>
      -- trivia without text: the search goes back once, to the first token that stands there
      obtain ⟨hempty, ⟨hsignificant, hwidth, hstart⟩, -⟩ := together_of_find? hfirst
      obtain ⟨front, rest, hsplit'⟩ := List.append_of_mem
        (mem_of_mem_before hsplit (List.mem_of_find?_eq_some hfirst))
      have hfree' : ∀ offset, o.start + o.token.width ≤ offset → ¬Crowded s root offset :=
        fun offset hle => hfree offset (by omega)
      obtain ⟨n, hn⟩ := hrun hsplit'
        (not_together_of_uncrowded hsplit' hsignificant (hfree' o.start (by omega))) hfree'
      refine ⟨n + 1, ?_⟩
      rw [follow, nextSignificantIn?_eq hsplit h, hfirst]
      exact hn

end TokenCursor

/-- What the searches from a token find, given the tokens before it and those behind it. -/
structure Followed (s : Sharing) (root : Node) (before : List TokenCursor) (t : TokenCursor)
    (behind : List TokenCursor) : Prop where
  next : t.nextSignificantIn? s = (before.find? fun o => t.Together s o).or
    (behind.find? fun u => !u.isTrivia && !u.isSame s t)
  forward_iff : (∀ u, t.nextSignificantIn? s = some u → t.path < u.path) ↔
    ∀ o ∈ before, ¬t.Together s o
  next_iff : t.nextSignificantIn? s = behind.find? (fun u => !u.isTrivia) ↔
    (∀ o ∈ before, ¬t.Together s o) ∧
      ∀ u, behind.find? (fun u => !u.isTrivia) = some u → u.isSame s t = false
  ends_iff : (∃ n, t.follow s n = none) ↔
    ∀ offset, t.start + t.token.width ≤ offset → ¬Crowded s root offset
  run : (∀ o ∈ before, ¬t.Together s o) →
    (∀ offset, t.start + t.token.width ≤ offset → ¬Crowded s root offset) →
    ∀ n, t.follow s n = (t.runThrough s behind)[n]?

namespace TokenCursor

/-- Whichever tokens are kept as one, the search from a token finds the first token in front of it
that stands together with it, or else the first significant one behind that is not the same. It goes
on in document order exactly if there is none in front, and to the first significant token behind
exactly if that is another as well. Searching on from what was found ends exactly if no offset from
the end of the token on is crowded, and then it runs through the significant tokens behind. -/
theorem followed_of_split (s : Sharing) {root : Node} (h : root.text.utf8ByteSize ≤ maxOffset)
    {before behind : List TokenCursor} {t : TokenCursor}
    (hsplit : (Cursor.ofRoot root).tokens = before ++ t :: behind) :
    Followed s root before t behind where
  next := nextSignificantIn?_eq hsplit h
  forward_iff := path_lt_nextSignificantIn?_iff hsplit h
  next_iff := nextSignificantIn?_eq_behind_iff hsplit h
  ends_iff := by
    constructor
    · rintro ⟨n, hends⟩ offset hle hcrowded
      exact follow_ne_none_of_crowded h (mem_of_split hsplit) hcrowded hle n hends
    · exact exists_follow_eq_none h hsplit
  run := follow_of_uncrowded h hsplit

/-- A class with one empty token for two names that are missing: from its keyword the searches find
the first of them, pass over the second for the semicolon, and then find nothing. -/
theorem followed_of_split_past_empty_name :
    let s : Sharing := ⟨fun path => if path = [2] then [1] else path⟩
    let root : Node := ⟨.classDeclaration, [.token ⟨.classKeyword, "class"⟩,
      .token ⟨.identifierToken, ""⟩, .token ⟨.identifierToken, ""⟩,
      .token ⟨.semicolonToken, ";"⟩]⟩
    let keyword : TokenCursor := ⟨⟨.classKeyword, "class"⟩, 0, 0, .ofRoot root⟩
    let name : TokenCursor := ⟨⟨.identifierToken, ""⟩, 5, 1, .ofRoot root⟩
    let again : TokenCursor := ⟨⟨.identifierToken, ""⟩, 5, 2, .ofRoot root⟩
    let semicolon : TokenCursor := ⟨⟨.semicolonToken, ";"⟩, 5, 3, .ofRoot root⟩
    root.text.utf8ByteSize ≤ maxOffset ∧
      (Cursor.ofRoot root).tokens = [] ++ keyword :: [name, again, semicolon] ∧
      keyword.follow s 1 = some name ∧ keyword.follow s 2 = some semicolon ∧
      keyword.follow s 3 = none := by
  intro s root keyword name again semicolon
  have hsize : root.text.utf8ByteSize ≤ maxOffset := by decide +kernel
  have hsplit : (Cursor.ofRoot root).tokens = [] ++ keyword :: [name, again, semicolon] := by
    decide +kernel
  have hempty : ∀ t ∈ (Cursor.ofRoot root).tokens, ∀ u ∈ (Cursor.ofRoot root).tokens,
      t.token.width = 0 → u.token.width = 0 → t.isSame s u = true := by
    decide +kernel
  have hpassed : keyword.runThrough s [name, again, semicolon] = [keyword, name, semicolon] := by
    decide +kernel
  have hrun := (followed_of_split s hsize hsplit).run (fun o ho => absurd ho List.not_mem_nil) (by
    rintro offset - ⟨t, ht, u, hu, hother, htat, huat⟩
    rw [hempty t ht u hu htat.width huat.width] at hother
    cases hother)
  rw [hpassed] at hrun
  exact ⟨hsize, hsplit, hrun 1, hrun 2, hrun 3⟩

/-- A class without a name at the end of a file: the search from the last token finds the empty name
in front of it, and from there the last token again. -/
theorem follow_circles_at_end_of_file :
    let root : Node := ⟨.compilationUnit, [.node .classDeclaration
      [.token ⟨.classKeyword, "class"⟩, .token ⟨.identifierToken, ""⟩],
      .token ⟨.endOfFileToken, ""⟩]⟩
    let c : Cursor := ⟨⟨.classDeclaration,
      [.token ⟨.classKeyword, "class"⟩, .token ⟨.identifierToken, ""⟩]⟩, 0, [⟨root, 0, 0⟩]⟩
    let keyword : TokenCursor := ⟨⟨.classKeyword, "class"⟩, 0, 0, c⟩
    let name : TokenCursor := ⟨⟨.identifierToken, ""⟩, 5, 1, c⟩
    let last : TokenCursor := ⟨⟨.endOfFileToken, ""⟩, 5, 1, .ofRoot root⟩
    (Cursor.ofRoot root).tokens = [keyword, name, last] ∧
      last.nextSignificant? = some name ∧ name.nextSignificant? = some last ∧
      ∀ n, last.follow .apart n ≠ none := by
  intro root c keyword name last
  have hlast : last.nextSignificant? = some name := by decide +kernel
  have hname : name.nextSignificant? = some last := by decide +kernel
  refine ⟨by decide +kernel, hlast, hname, fun n => ?_⟩
  have hcircle : last.follow .apart n ≠ none ∧ name.follow .apart n ≠ none := by
    rw [nextSignificant?] at hlast hname
    induction n with
    | zero => exact ⟨Option.some_ne_none _, Option.some_ne_none _⟩
    | succ n ih =>
        rw [follow, follow, hlast, hname]
        exact ⟨ih.2, ih.1⟩
  exact hcircle.1

end TokenCursor

end TreeLint
