import Mathlib.Data.List.Basic
import ShaderInclude.Rebuild.DependencyRule

/-!
# Reading a dependency rule back

A rule is read by cutting it at the spaces that no backslash precedes (`DependencyRule.cut`), taking
the colon from the first piece and undoing the escapes in each of them (`DependencyRule.unescape`).
In the written form of a name a backslash stands only in front of a space, and in front of each of
them, so a written name is never cut (`DependencyRule.whole_escape`), whatever spaces it begins or
ends with.

Main statement: `DependencyRule.names_rule`. What is read back is the target and the dependencies,
each as often as it was given; only backslashes have become slashes. Dependencies are sorted as they
are written, and texts are sorted in one way only (`Text.sort_eq_of_perm`), so their order does not
show.
-/

namespace ShaderInclude

namespace Text

/-- Texts are sorted in one way only. -/
theorem sort_eq_of_perm {texts texts' : List Text} (h : texts.Perm texts') :
    sort texts = sort texts' := by
  have hsorted : ∀ texts, (sort texts).Pairwise fun a b => decide (¬b < a) = true := fun texts =>
    List.pairwise_mergeSort
      (fun a b c hab hbc => by
        rw [decide_eq_true_eq] at hab hbc ⊢
        exact List.le_trans hab hbc)
      (fun a b => by
        rw [Bool.or_eq_true, decide_eq_true_eq, decide_eq_true_eq]
        exact List.le_total a b) texts
  refine List.Perm.eq_of_pairwise (fun a b _ _ hab hba => ?_) (hsorted texts) (hsorted texts') ?_
  · rw [decide_eq_true_eq] at hab hba
    exact List.le_antisymm hab hba
  · exact ((List.mergeSort_perm texts _).trans h).trans (List.mergeSort_perm texts' _).symm

end Text

namespace DependencyRule

/-! ### How a rule is read -/

/-- The pieces of a text between the spaces that no backslash precedes. `escaped` says whether a
backslash precedes the text. -/
def cut (escaped : Bool) : Text → List Text
  | [] => [[]]
  | c :: t =>
    if c = ' ' ∧ ¬escaped then [] :: cut false t
    else match cut (c = '\\') t with
      | [] => [[c]]
      | piece :: pieces => (c :: piece) :: pieces

/-- A text without the given character at its end. -/
def withoutLast (c : Char) (t : Text) : Text := if t.getLast? = some c then t.dropLast else t

/-- A written name with its escapes undone. -/
def unescape : Text → Text
  | '\\' :: ' ' :: t => ' ' :: unescape t
  | '$' :: '$' :: t => '$' :: unescape t
  | c :: t => c :: unescape t
  | [] => []

/-- The names in a rule: its target and then its dependencies. -/
def names (rule : Text) : List Text :=
  match cut false (withoutLast '\n' rule) with
  | [] => []
  | first :: pieces => (withoutLast ':' first :: pieces).map unescape

/-- A name with a slash for each backslash. -/
def slashed (name : Text) : Text := name.map fun c => if c = '\\' then '/' else c

variable {b : Bool} {c : Char} {t u name target : Text} {dependencies : List Text}

theorem slashed_of_not_mem (h : '\\' ∉ name) : slashed name = name := by
  refine (List.map_congr_left fun c hc => ?_).trans (List.map_id name)
  exact if_neg fun (hbackslash : c = '\\') => h (hbackslash ▸ hc)

theorem withoutLast_concat (c : Char) (t : Text) : withoutLast c (t ++ [c]) = t := by
  simp [withoutLast]

/-! ### Escapes -/

theorem unescape_cons (h : c ≠ '\\') (h' : c ≠ '$') (t : Text) :
    unescape (c :: t) = c :: unescape t := by
  rw [unescape.eq_def]
  split <;> simp_all

/-- The escapes of a name are undone, but for a backslash. -/
theorem unescape_escape (name : Text) : unescape (escape name) = slashed name := by
  have key : ∀ (c : Char) (t : Text),
      unescape (escapeChar c ++ t) = (if c = '\\' then '/' else c) :: unescape t := by
    intro c t
    rw [escapeChar]
    split_ifs with hbackslash hspace hdollar
    · exact unescape_cons (by decide) (by decide) t
    · rw [hspace]
      rfl
    · rw [hdollar]
      rfl
    · exact unescape_cons hbackslash hdollar t
  induction name with
  | nil => rfl
  | cons c name ih =>
    rw [escape, List.flatMap_cons, key, ← escape, ih]
    rfl

/-! ### Cuts -/

/-- No space of the text is without a backslash in front of it, and no backslash is left over for
what comes behind the text. -/
def Whole : Bool → Text → Prop
  | escaped, [] => escaped = false
  | escaped, c :: t => (c = ' ' → escaped = true) ∧ Whole (c = '\\') t

theorem Whole.append (ht : Whole b t) (hu : Whole false u) : Whole b (t ++ u) := by
  induction t generalizing b with
  | nil => exact ht ▸ hu
  | cons c t ih => exact ⟨ht.1, ih ht.2⟩

/-- A written name is whole. -/
theorem whole_escape (name : Text) : Whole false (escape name) := by
  induction name with
  | nil => rfl
  | cons c name ih =>
    have hchar : Whole false (escapeChar c) := by
      rw [escapeChar]
      split_ifs <;> simp_all [Whole]
    exact hchar.append ih

theorem cut_cons_of_not (h : ¬(c = ' ' ∧ ¬b)) (t : Text) :
    cut b (c :: t) = match cut (c = '\\') t with
      | [] => [[c]]
      | piece :: pieces => (c :: piece) :: pieces := by
  rw [cut, if_neg h]

/-- A whole text is not cut. -/
theorem Whole.cut_eq (h : Whole b t) : cut b t = [t] := by
  induction t generalizing b with
  | nil => rfl
  | cons c t ih => rw [cut_cons_of_not (fun hc => hc.2 (h.1 hc.1)), ih h.2]

/-- Behind a whole text a space cuts. -/
theorem Whole.cut_append_space (h : Whole b t) (u : Text) :
    cut b (t ++ ' ' :: u) = t :: cut false u := by
  induction t generalizing b with
  | nil =>
    obtain rfl : b = false := h
    rw [List.nil_append, cut, if_pos ⟨rfl, by decide⟩]
  | cons c t ih => rw [List.cons_append, cut_cons_of_not (fun hc => hc.2 (h.1 hc.1)), ih h.2]

/-- Whole texts with spaces in front are cut into these texts. -/
theorem Whole.cut_row (ht : Whole false t) {pieces : List Text} (h : ∀ p ∈ pieces, Whole false p) :
    cut false (t ++ pieces.flatMap (' ' :: ·)) = t :: pieces := by
  induction pieces generalizing t with
  | nil => rw [List.flatMap_nil, List.append_nil, ht.cut_eq]
  | cons p pieces ih =>
    obtain ⟨hp, hpieces⟩ := List.forall_mem_cons.mp h
    rw [List.flatMap_cons, List.cons_append, ht.cut_append_space, ih hp hpieces]

/-- The names of a rule, in the order in which they are written. -/
theorem names_rule_eq (target : Text) (dependencies : List Text) :
    names (rule target dependencies) =
      slashed target :: (Text.sort (dependencies.map escape)).map unescape := by
  have hfirst : Whole false (escape target ++ [':']) := (whole_escape target).append (by simp [Whole])
  have hpieces : ∀ p ∈ Text.sort (dependencies.map escape), Whole false p := by
    intro p hp
    obtain ⟨name, -, rfl⟩ := List.mem_map.mp ((List.mergeSort_perm _ _).mem_iff.mp hp)
    exact whole_escape name
  have hline : escape target ++ ':' :: (Text.sort (dependencies.map escape)).flatMap (' ' :: ·) =
      escape target ++ [':'] ++ (Text.sort (dependencies.map escape)).flatMap (' ' :: ·) := by
    rw [List.append_assoc]
    rfl
  rw [names, rule, withoutLast_concat, hline, hfirst.cut_row hpieces]
  simp only [withoutLast_concat, List.map_cons, unescape_escape]

/-- **A dependency rule can be read back.** The names in the rule of a target and its dependencies
are the target and then the dependencies in some order, each as often as it was given, with a slash
for each backslash. So if there is no backslash in them, they are the target and the dependencies
themselves: with spaces at any place, any number of dollars and colons, newlines, or nothing in
them. The rule is the same for every order of the dependencies. -/
theorem names_rule :
    (∀ target dependencies, ∃ read, names (rule target dependencies) = slashed target :: read ∧
      read.Perm (dependencies.map slashed)) ∧
    (∀ target dependencies, (∀ name ∈ target :: dependencies, '\\' ∉ name) →
      ∃ read, names (rule target dependencies) = target :: read ∧ read.Perm dependencies) ∧
    ∀ target dependencies dependencies', dependencies.Perm dependencies' →
      rule target dependencies = rule target dependencies' := by
  have hread : ∀ dependencies : List Text,
      ((Text.sort (dependencies.map escape)).map unescape).Perm (dependencies.map slashed) := by
    intro dependencies
    have hmap : (dependencies.map escape).map unescape = dependencies.map slashed := by
      rw [List.map_map]
      exact List.map_congr_left fun name _ => unescape_escape name
    exact hmap ▸ (List.mergeSort_perm _ _).map unescape
  refine ⟨fun target dependencies => ⟨_, names_rule_eq target dependencies, hread dependencies⟩,
    fun target dependencies h => ⟨(Text.sort (dependencies.map escape)).map unescape, ?_, ?_⟩,
    fun target dependencies dependencies' h => ?_⟩
  · rw [names_rule_eq, slashed_of_not_mem (h target List.mem_cons_self)]
  · have hsame : dependencies.map slashed = dependencies :=
      (List.map_congr_left fun name hname =>
        slashed_of_not_mem (h name (List.mem_cons_of_mem _ hname))).trans (List.map_id _)
    exact (hread dependencies).trans (List.Perm.of_eq hsame)
  · rw [rule, rule, Text.sort_eq_of_perm (h.map escape)]

/-- Names that begin and end with spaces or are nothing else, dollars in a row, and colons at the
end. -/
theorem names_rule_blank :
    let target := "o: $:".toList
    let dependencies := [" b ".toList, "$$".toList, "  ".toList, " b ".toList, ":".toList]
    (∀ name ∈ target :: dependencies, '\\' ∉ name) ∧
      ∃ read, names (rule target dependencies) = target :: read ∧ read.Perm dependencies := by
  intro target dependencies
  have h : ∀ name ∈ target :: dependencies, '\\' ∉ name := by decide
  obtain ⟨-, hnames, -⟩ := names_rule
  exact ⟨h, hnames target dependencies h⟩

end DependencyRule

end ShaderInclude
