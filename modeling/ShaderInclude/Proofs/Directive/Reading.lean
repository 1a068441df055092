import Mathlib.Data.List.TakeWhile
import ShaderInclude.Proofs.Directive.Spelling

/-!
# Reading a directive

The functions of the grammars read a directive part by part, and take blanks as far as they go. Each
of them has two laws here: what is spelled as the grammar says is read, and what has been read is
spelled so.

There is a choice in two of the parts. `Terminates` says which terminator of a line is taken, and
`IsShortest` which path.
-/

namespace ShaderInclude

namespace Directive

variable {f : Form}

/-! ### Blanks -/

theorem blanks_takeWhile (t : Text) : Blanks (t.takeWhile Text.isSpace) :=
  fun _ hc => List.mem_takeWhile_imp hc

theorem takeWhile_append_skipSpace (t : Text) : t.takeWhile Text.isSpace ++ skipSpace t = t :=
  List.takeWhile_append_dropWhile

theorem Blanks.skipSpace_append {blanks : Text} (h : Blanks blanks) (t : Text) :
    skipSpace (blanks ++ t) = skipSpace t :=
  List.dropWhile_append_of_pos h

theorem Blanks.takeWhile_append {blanks : Text} (h : Blanks blanks) (t : Text) :
    (blanks ++ t).takeWhile Text.isSpace = blanks ++ t.takeWhile Text.isSpace :=
  List.takeWhile_append_of_pos h

theorem skipSpace_cons {c : Char} (hc : Text.isSpace c = false) (t : Text) :
    skipSpace (c :: t) = c :: t :=
  List.dropWhile_cons_of_neg (by simp [hc])

/-- Behind blanks that are taken as far as they go, none follows. -/
theorem isSpace_of_skipSpace {t u : Text} {c : Char} (h : skipSpace t = c :: u) :
    Text.isSpace c = false := by
  have hhead := List.head?_dropWhile_not Text.isSpace t
  rw [show t.dropWhile Text.isSpace = c :: u from h] at hhead
  exact hhead

theorem takeWhile_skipSpace (t : Text) : (skipSpace t).takeWhile Text.isSpace = [] := by
  cases h : skipSpace t with
  | nil => rfl
  | cons c u => exact List.takeWhile_cons_of_neg (by simp [isSpace_of_skipSpace h])

theorem skipSpace_skipSpace (t : Text) : skipSpace (skipSpace t) = skipSpace t := by
  cases h : skipSpace t with
  | nil => rfl
  | cons c u => exact skipSpace_cons (isSpace_of_skipSpace h) u

theorem isSpace_of_isQuote {c : Char} (hc : isQuote c = true) : Text.isSpace c = false := by
  simp only [isQuote, Bool.or_eq_true, decide_eq_true_eq] at hc
  rcases hc with rfl | rfl <;> rfl

/-! ### The opening and the keyword -/

theorem Opens.afterOpening?_eq {opening : Text} (h : Opens f opening) {indent : Text}
    (hindent : Blanks indent) (t : Text) :
    afterOpening? f (skipSpace (indent ++ (opening ++ '&' :: t))) = some ('&' :: t) := by
  have hstop : skipSpace ('&' :: t) = '&' :: t := skipSpace_cons rfl t
  rw [hindent.skipSpace_append]
  cases f with
  | line =>
    obtain ⟨blanks, hblanks, rfl | rfl⟩ := h
    · rw [hblanks.skipSpace_append, hstop]
      exact congrArg some hstop
    · have hslashes : skipSpace ('/' :: '/' :: blanks ++ '&' :: t) =
          ['/', '/'] ++ (blanks ++ '&' :: t) := skipSpace_cons rfl _
      rw [hslashes, afterOpening?, Text.after?_append, Option.getD_some,
        hblanks.skipSpace_append, hstop]
  | block =>
    obtain ⟨blanks, hblanks, rfl⟩ := h
    have hslash : skipSpace ('/' :: '*' :: blanks ++ '&' :: t) =
        ['/', '*'] ++ (blanks ++ '&' :: t) := skipSpace_cons rfl _
    rw [hslash, afterOpening?, Text.after?_append, Option.map_some, hblanks.skipSpace_append,
      hstop]

theorem exists_opens_of_afterOpening? {t rest : Text}
    (h : afterOpening? f (skipSpace t) = some rest) :
    ∃ opening, Opens f opening ∧ t = t.takeWhile Text.isSpace ++ (opening ++ rest) := by
  have hsplit := takeWhile_append_skipSpace t
  generalize skipSpace t = body at h hsplit
  cases f with
  | line =>
    rw [afterOpening?, Option.some.injEq] at h
    cases hafter : Text.after? ['/', '/'] body with
    | none =>
      rw [hafter, Option.getD_none] at h
      refine ⟨body.takeWhile Text.isSpace, ⟨_, blanks_takeWhile _, .inl rfl⟩, ?_⟩
      rw [← h, takeWhile_append_skipSpace, hsplit]
    | some u =>
      rw [hafter, Option.getD_some] at h
      refine ⟨'/' :: '/' :: u.takeWhile Text.isSpace, ⟨_, blanks_takeWhile _, .inr rfl⟩, ?_⟩
      rw [← h, List.cons_append, List.cons_append, takeWhile_append_skipSpace]
      rw [Text.eq_append_of_after? hafter] at hsplit
      exact hsplit.symm
  | block =>
    obtain ⟨u, hafter, h⟩ := Option.map_eq_some_iff.mp h
    refine ⟨'/' :: '*' :: u.takeWhile Text.isSpace, ⟨_, blanks_takeWhile _, rfl⟩, ?_⟩
    rw [← h, List.cons_append, List.cons_append, takeWhile_append_skipSpace]
    rw [Text.eq_append_of_after? hafter] at hsplit
    exact hsplit.symm

theorem Spelling.afterKeyword?_eq (w : Spelling f) (t : Text) :
    afterKeyword? ('&' :: (w.key ++ t)) = some t := by
  have hamp : Text.after? ['&'] ('&' :: (w.key ++ t)) =
      some (w.gap ++ (keyword ++ (w.space ++ w.openQuote :: t))) := by
    simp [Text.after?, key]
  have hgap : skipSpace (w.gap ++ (keyword ++ (w.space ++ w.openQuote :: t))) =
      keyword ++ (w.space ++ w.openQuote :: t) := by
    rw [w.blanks_gap.skipSpace_append]
    exact skipSpace_cons rfl _
  -- the space is a blank, which the keyword has to have after it, and further ones
  obtain ⟨c, space, hspace⟩ := List.exists_cons_of_ne_nil w.space_ne_nil
  obtain ⟨hc, hblanks⟩ : Text.isSpace c = true ∧ Blanks space :=
    List.forall_mem_cons.mp (hspace ▸ w.blanks_space)
  have hword : Text.after? ['i', 'n', 'c', 'l', 'u', 'd', 'e']
      (keyword ++ (w.space ++ w.openQuote :: t)) = some (c :: (space ++ w.openQuote :: t)) := by
    rw [hspace]
    exact Text.after?_append keyword _
  have hquote : skipSpace (space ++ w.openQuote :: t) = w.openQuote :: t := by
    rw [hblanks.skipSpace_append, skipSpace_cons (isSpace_of_isQuote w.isQuote_openQuote)]
  simp only [afterKeyword?, hamp, hgap, hword, Option.bind_eq_bind, Option.bind_some, hc, if_true,
    hquote, w.isQuote_openQuote]

theorem exists_key_of_afterKeyword? {t rest : Text} (h : afterKeyword? t = some rest) :
    ∃ gap space quote, Blanks gap ∧ Blanks space ∧ space ≠ [] ∧ isQuote quote = true ∧
      t = '&' :: (gap ++ (keyword ++ (space ++ [quote])) ++ rest) := by
  simp only [afterKeyword?, Option.bind_eq_bind, Option.bind_eq_some_iff] at h
  obtain ⟨u, hamp, v, hword, h⟩ := h
  cases v with
  | nil => cases h
  | cons c v =>
    dsimp only at h
    split at h
    case isFalse => cases h
    case isTrue hc =>
      split at h
      case h_2 => cases h
      case h_1 quote v' hv =>
        split at h
        case isFalse => cases h
        case isTrue hquote =>
          cases h
          refine ⟨u.takeWhile Text.isSpace, c :: v.takeWhile Text.isSpace, quote,
            blanks_takeWhile u, ?_, List.cons_ne_nil _ _, hquote, ?_⟩
          · exact List.forall_mem_cons.mpr ⟨hc, blanks_takeWhile v⟩
          · have ht := Text.eq_append_of_after? hamp
            have hu := Text.eq_append_of_after? hword
            have hgap := takeWhile_append_skipSpace u
            have hspace := takeWhile_append_skipSpace v
            rw [hv] at hspace
            rw [hu, ← hspace] at hgap
            rw [ht]
            simpa [keyword] using hgap.symm

/-! ### The closing -/

/-- A newline terminates a line only if no `;` follows the blanks that it belongs to, and if it is
the last newline among them. -/
def Terminates (terminator rest : Text) : Prop :=
  terminator = ['\n'] →
    '\n' ∉ rest.takeWhile Text.isSpace ∧ (rest.dropWhile Text.isSpace).head? ≠ some ';'

theorem afterLastNewline?_eq (before : Text) {after : Text} (h : '\n' ∉ after) :
    afterLastNewline? (before ++ '\n' :: after) = some after := by
  have htake : (before ++ '\n' :: after).reverse.takeWhile (· ≠ '\n') = after.reverse := by
    rw [List.reverse_append, List.reverse_cons, List.append_assoc, List.takeWhile_append_of_pos,
      List.singleton_append, List.takeWhile_cons_of_neg (by simp), List.append_nil]
    intro c hc
    exact decide_eq_true fun hnewline => h (hnewline ▸ List.mem_reverse.mp hc)
  rw [afterLastNewline?, if_pos (by simp), htake, List.reverse_reverse]

theorem exists_of_afterLastNewline? {run after : Text} (h : afterLastNewline? run = some after) :
    ∃ before, run = before ++ '\n' :: after ∧ '\n' ∉ after := by
  have hmem : '\n' ∈ run.reverse := by
    by_contra hmem
    rw [afterLastNewline?, if_neg (by simpa using hmem)] at h
    cases h
  -- the last newline is the first one from the end
  obtain ⟨last, before, hrun, hlast⟩ := List.eq_append_cons_of_mem hmem
  have hsplit : run = before.reverse ++ '\n' :: last.reverse := by
    simpa using congrArg List.reverse hrun
  have hlast : '\n' ∉ last.reverse := by simpa using hlast
  rw [hsplit, afterLastNewline?_eq _ hlast, Option.some.injEq] at h
  subst h
  exact ⟨before.reverse, hsplit, hlast⟩

/-- What a form closes with is read, if the terminator is the one to take. -/
theorem Closes.closing?_eq {closing terminator : Text} (h : Closes f closing terminator)
    {rest : Text} (hlast : Terminates terminator rest) :
    closing? f (closing ++ (terminator ++ rest)) = some ⟨terminator.head?, rest⟩ := by
  cases f with
  | line =>
    obtain ⟨hblanks, rfl | rfl⟩ := h
    · have hskip : skipSpace (closing ++ ([';'] ++ rest)) = ';' :: rest := by
        rw [hblanks.skipSpace_append]
        exact skipSpace_cons rfl rest
      rw [closing?, hskip]
      rfl
    · obtain ⟨hnewline, hsemicolon⟩ := hlast rfl
      have hbreak : Blanks (closing ++ ['\n']) := hblanks.append (.singleton rfl)
      have hrun : (closing ++ (['\n'] ++ rest)).takeWhile Text.isSpace =
          closing ++ '\n' :: rest.takeWhile Text.isSpace := by
        simpa using hbreak.takeWhile_append rest
      have hskip : skipSpace (closing ++ (['\n'] ++ rest)) = skipSpace rest := by
        simpa using hbreak.skipSpace_append rest
      have hrest := takeWhile_append_skipSpace rest
      rw [closing?, hskip, hrun, afterLastNewline?_eq closing hnewline]
      split
      case h_1 _ u hu =>
        refine absurd ?_ hsemicolon
        change (skipSpace rest).head? = some ';'
        rw [hu, List.head?_cons]
      case h_2 => rw [Option.map_some, hrest, List.head?_cons]
  | block =>
    obtain ⟨rfl, before, after, hbefore, hafter, hclosing⟩ := h
    have hend : skipSpace (after ++ ['*', '/'] ++ rest) = ['*', '/'] ++ rest := by
      rw [List.append_assoc, hafter.skipSpace_append]
      exact skipSpace_cons rfl _
    have hskip : skipSpace ((Text.after? [';'] (skipSpace (closing ++ ([] ++ rest)))).getD
        (skipSpace (closing ++ ([] ++ rest)))) = ['*', '/'] ++ rest := by
      rcases hclosing with rfl | rfl
      · have hstart : skipSpace (before ++ (after ++ ['*', '/']) ++ ([] ++ rest)) =
            ['*', '/'] ++ rest := by
          rw [List.append_assoc, hbefore.skipSpace_append]
          exact hend
        rw [hstart]
        exact skipSpace_cons rfl _
      · have hstart : skipSpace (before ++ ';' :: (after ++ ['*', '/']) ++ ([] ++ rest)) =
            [';'] ++ (after ++ ['*', '/'] ++ rest) := by
          rw [List.append_assoc, hbefore.skipSpace_append]
          exact skipSpace_cons rfl _
        rw [hstart, Text.after?_append, Option.getD_some, hend]
    rw [closing?]
    simp only [hskip, Text.after?_append, Option.map_some]
    rfl

/-- Where a form can close in some way, its closing is found. -/
theorem Closes.closing?_ne_none {closing terminator : Text} (h : Closes f closing terminator)
    (rest : Text) : closing? f (closing ++ (terminator ++ rest)) ≠ none := by
  cases f with
  | block =>
    rw [h.closing?_eq fun hterminator => by simp [h.1] at hterminator]
    exact Option.some_ne_none _
  | line =>
    obtain ⟨hblanks, rfl | rfl⟩ := h
    · rw [Closes.closing?_eq (f := .line) ⟨hblanks, .inl rfl⟩ fun hterminator => by
        simp at hterminator]
      exact Option.some_ne_none _
    · have hmem : '\n' ∈ (closing ++ (['\n'] ++ rest)).takeWhile Text.isSpace := by
        rw [hblanks.takeWhile_append]
        simp [Text.isSpace]
      rw [closing?, afterLastNewline?, if_pos hmem]
      split
      · exact Option.some_ne_none _
      · exact Option.some_ne_none _

/-- What is read as a closing is what a form closes with. -/
theorem exists_closes_of_closing? {t : Text} {c : Closing} (h : closing? f t = some c) :
    ∃ closing terminator, Closes f closing terminator ∧ t = closing ++ (terminator ++ c.rest) ∧
      terminator = c.terminator.toList ∧ Terminates terminator c.rest := by
  have hsplit := takeWhile_append_skipSpace t
  cases f with
  | line =>
    rw [closing?] at h
    split at h
    case h_1 rest hrest =>
      cases h
      refine ⟨t.takeWhile Text.isSpace, [';'], ⟨blanks_takeWhile t, .inl rfl⟩, ?_, rfl, ?_⟩
      · rw [hrest] at hsplit
        exact hsplit.symm
      · intro hterminator
        simp at hterminator
    case h_2 hsemicolon =>
      obtain ⟨after, hafter, rfl⟩ := Option.map_eq_some_iff.mp h
      obtain ⟨before, hrun, hnewline⟩ := exists_of_afterLastNewline? hafter
      have hblanks : Blanks (before ++ '\n' :: after) := hrun ▸ blanks_takeWhile t
      have hbefore : Blanks before := fun c hc => hblanks c (List.mem_append_left _ hc)
      have hblanks_after : Blanks after := fun c hc => hblanks c (by simp [hc])
      refine ⟨before, ['\n'], ⟨hbefore, .inr rfl⟩, ?_, rfl, fun _ => ⟨?_, ?_⟩⟩
      · rw [hrun] at hsplit
        simpa using hsplit.symm
      · rwa [hblanks_after.takeWhile_append, takeWhile_skipSpace, List.append_nil]
      · change (skipSpace (after ++ skipSpace t)).head? ≠ some ';'
        rw [hblanks_after.skipSpace_append, skipSpace_skipSpace]
        intro hhead
        obtain ⟨rest, hrest⟩ := List.head?_eq_some_iff.mp hhead
        exact hsemicolon rest hrest
  | block =>
    obtain ⟨rest, hend, rfl⟩ := Option.map_eq_some_iff.mp h
    have hrest := Text.eq_append_of_after? hend
    have hno : Terminates [] rest := fun hterminator => by simp at hterminator
    cases hsemicolon : Text.after? [';'] (skipSpace t) with
    | none =>
      rw [hsemicolon, Option.getD_none, skipSpace_skipSpace] at hrest
      refine ⟨t.takeWhile Text.isSpace ++ ([] ++ ['*', '/']), [], ⟨rfl, _, [],
        blanks_takeWhile t, .nil, .inl rfl⟩, ?_, rfl, hno⟩
      rw [hrest] at hsplit
      simpa using hsplit.symm
    | some u =>
      have hu := takeWhile_append_skipSpace u
      rw [hsemicolon, Option.getD_some] at hrest
      rw [Text.eq_append_of_after? hsemicolon, ← hu, hrest] at hsplit
      refine ⟨t.takeWhile Text.isSpace ++ ';' :: (u.takeWhile Text.isSpace ++ ['*', '/']), [],
        ⟨rfl, _, _, blanks_takeWhile t, blanks_takeWhile u, .inr rfl⟩, ?_, rfl, hno⟩
      simpa using hsplit.symm

/-! ### The path -/

theorem quoteClosing?_cons {q : Char} (hq : isQuote q = true) (t : Text) :
    quoteClosing? f (q :: t) = closing? f t := by
  rw [quoteClosing?, if_pos hq]

theorem exists_of_quoteClosing? {t : Text} {c : Closing} (h : quoteClosing? f t = some c) :
    ∃ q u, t = q :: u ∧ isQuote q = true ∧ closing? f u = some c := by
  cases t with
  | nil => cases h
  | cons q u =>
    rw [quoteClosing?] at h
    split at h
    case isTrue hq => exact ⟨q, u, rfl, hq, h⟩
    case isFalse => cases h

/-- A path is the shortest beginning of the text, of at least one character and without a newline,
after which the form closes. -/
structure IsShortest (f : Form) (t path : Text) (c : Closing) : Prop where
  ne_nil : path ≠ []
  newline_not_mem : '\n' ∉ path
  exists_rest : ∃ rest, t = path ++ rest ∧ quoteClosing? f rest = some c
  length_le : ∀ path' rest', path' ≠ [] → t = path' ++ rest' → quoteClosing? f rest' ≠ none →
    path.length ≤ path'.length

theorem isShortest_of_path? {t path : Text} {c : Closing} (h : path? f t = some (path, c)) :
    IsShortest f t path c := by
  induction t generalizing path with
  | nil => cases h
  | cons a t ih =>
    rw [path?] at h
    split at h
    case isTrue => cases h
    case isFalse ha =>
      cases hclosing : quoteClosing? f t with
      | some closing =>
        rw [hclosing] at h
        cases h
        refine ⟨List.cons_ne_nil _ _, by simpa using Ne.symm ha, ⟨t, rfl, hclosing⟩, ?_⟩
        intro path' rest' hne _ _
        exact List.length_pos_of_ne_nil hne
      | none =>
        rw [hclosing] at h
        obtain ⟨⟨path₁, c₁⟩, htail, heq⟩ := Option.map_eq_some_iff.mp h
        cases heq
        obtain ⟨-, hnewline, ⟨rest, hrest, hc⟩, hmin⟩ := ih htail
        refine ⟨List.cons_ne_nil _ _, ?_, ⟨rest, by rw [hrest]; rfl, hc⟩, ?_⟩
        · exact fun hmem => (List.mem_cons.mp hmem).elim (fun h => ha h.symm) hnewline
        · intro path' rest' hne ht' hc'
          obtain ⟨b, path₂, rfl⟩ := List.exists_cons_of_ne_nil hne
          obtain ⟨rfl, rfl⟩ := List.cons.inj ht'
          rw [List.length_cons, List.length_cons, Nat.add_le_add_iff_right]
          refine hmin path₂ rest' ?_ rfl hc'
          -- one character is not enough, since the form does not close after it
          rintro rfl
          exact hc' hclosing

theorem path?_ne_none {path rest : Text} (hne : path ≠ []) (hnewline : '\n' ∉ path)
    (hclosing : quoteClosing? f rest ≠ none) : path? f (path ++ rest) ≠ none := by
  induction path with
  | nil => exact absurd rfl hne
  | cons a path ih =>
    obtain ⟨ha, hpath⟩ := not_or.mp (mt List.mem_cons.mpr hnewline)
    rw [List.cons_append, path?, if_neg (Ne.symm ha)]
    cases htail : quoteClosing? f (path ++ rest) with
    | some c => exact Option.some_ne_none _
    | none =>
      have hpath_ne : path ≠ [] := by
        rintro rfl
        exact hclosing htail
      simpa using ih hpath_ne hpath

end Directive

end ShaderInclude
