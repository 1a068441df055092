import Mathlib.Data.List.Induction
import ShaderInclude.Proofs.Path.Canonical

/-!
# Normal forms and joining

A part of a joined path may be replaced by its normal form: what is left of the part's `..` cancels
the names before it in the same way. The reason is that a walk along names that a path writes and
then takes back again leaves no trace, wherever the walk has started (`foldl_push_eq_of_walk`).

Main statement: `normal_join_congr`. Normalising is a congruence for joining, so a path may be
normalised level by level or once. Along a chain of includes, each of which is joined to the
directory of the module before it, `Path.follow` finds the normal form of the whole path that is
written down by `Path.spelledOut`. How the directory of a module is written there matters: taking
the last name away is right only if this is not `..`, but a further `..` is right for every path that
leads to a file (`EndsInFile.directory?_eq_outward`).
-/

namespace ShaderInclude

namespace Path

variable {anchored : Bool} {k : Nat} {reals : List Name} {n : Name} {p q : Path}

/-! ### Walks that go on -/

/-- What is written and then cancelled leaves no trace. -/
theorem Trail.push_push_up (hn : n ≠ Name.up) (t : Trail) :
    (t.push anchored n).push anchored Name.up = t := by
  simp [push, hn]

/-- A walk goes on along names as along what these names leave. -/
theorem foldl_push_eq_of_walk {names : List Name} (h : walk false names = .climbed k reals)
    (t : Trail) : names.foldl (Trail.push anchored) t =
      (List.replicate k Name.up ++ reals).foldl (Trail.push anchored) t := by
  induction names using List.reverseRecOn generalizing k reals with
  | nil =>
    obtain ⟨rfl, rfl⟩ := eq_nil_of_walk_nil h
    rfl
  | append_singleton names n ih =>
    obtain ⟨k', reals', hwalk, hclimbs, hpush⟩ := exists_push_of_walk_concat h
    rw [List.foldl_append, ih hwalk]
    by_cases hn : n = Name.up
    · subst hn
      rcases List.eq_nil_or_concat reals' with rfl | ⟨reals', last, rfl⟩
      · rw [Trail.climbed_nil_push_up] at hpush
        obtain ⟨rfl, rfl⟩ := Trail.climbed_inj hpush
        rw [List.append_nil, List.append_nil, List.replicate_succ', List.foldl_append]
      · -- the last name was no `..`, and it is taken back
        rw [List.concat_eq_append] at hpush hclimbs ⊢
        rw [Trail.climbed_concat_push_up] at hpush
        obtain ⟨rfl, rfl⟩ := Trail.climbed_inj hpush
        have hlast : last ≠ Name.up := by
          rintro rfl
          exact hclimbs.up_not_mem (by simp)
        rw [← List.append_assoc, List.foldl_append]
        exact Trail.push_push_up hlast _
    · rw [Trail.climbed_push_of_ne hn] at hpush
      obtain ⟨rfl, rfl⟩ := Trail.climbed_inj hpush
      rw [← List.append_assoc]
      exact List.foldl_append.symm

theorem walk_append (anchored : Bool) (names names' : List Name) :
    walk anchored (names ++ names') = names'.foldl (Trail.push anchored) (walk anchored names) :=
  List.foldl_append

/-- The names of a normal form are walked to the same end. -/
theorem walk_normal (p : Path) :
    walk p.isAnchored p.normal.names = walk p.isAnchored p.names := by
  obtain ⟨k, reals, hwalk, hclimbs, hnames⟩ := exists_normal_names p
  rw [hnames, hwalk]
  exact walk_climbed hclimbs

theorem normal_eq_of_walk (hanchor : p.anchor = q.anchor)
    (hwalk : walk p.isAnchored p.names = walk q.isAnchored q.names) : p.normal = q.normal := by
  rw [normal, normal, hwalk, hanchor]

/-! ### Joining -/

theorem join_of_relative {a b : Path} (h : b.isAnchored = false) :
    a.join b = ⟨a.anchor, a.names ++ b.names⟩ := by
  simp [join, h]

theorem normal_normal_join (a b : Path) : (a.normal.join b).normal = (a.join b).normal := by
  cases hb : b.isAnchored with
  | true => rw [join_of_anchored hb, join_of_anchored hb]
  | false =>
    have hwalk : walk a.isAnchored (a.normal.names ++ b.names) =
        walk a.isAnchored (a.names ++ b.names) := by
      rw [walk_append, walk_append, walk_normal]
    rw [join_of_relative hb, join_of_relative hb]
    exact normal_eq_of_walk rfl hwalk

theorem normal_join_normal (a b : Path) : (a.join b.normal).normal = (a.join b).normal := by
  cases hb : b.isAnchored with
  | true =>
    have hanchored : b.normal.isAnchored := hb
    rw [join_of_anchored hb, join_of_anchored hanchored]
    exact normal_isCanonical b
  | false =>
    have hrelative : b.normal.isAnchored = false := hb
    obtain ⟨k, reals, hwalk, -, hnames⟩ := exists_normal_names b
    have hsame : walk a.isAnchored (a.names ++ b.normal.names) =
        walk a.isAnchored (a.names ++ b.names) := by
      rw [walk_append, walk_append, hnames, ← foldl_push_eq_of_walk (hb ▸ hwalk)]
    rw [join_of_relative hb, join_of_relative hrelative]
    exact normal_eq_of_walk rfl hsame

/-! ### Chains of includes -/

/-- Where a chain of includes leads from a module. Each include path is joined to the directory of
the module before it, and normalised. -/
def follow (p : Path) : List Text → Option Path
  | [] => some p
  | written :: chain => p.directory?.bind fun directory => follow (target directory written) chain

/-- The whole path along the chain with nothing normalised, where the directory of a path is to be
written in a given way. -/
def spelledOut (directory : Path → Path) (p : Path) : List Text → Path
  | [] => p
  | written :: chain => spelledOut directory ((directory p).join (parse written)) chain

/-- The directory of a path by a further `..`. -/
def outward (p : Path) : Path := p.join ⟨.relative, [Name.up]⟩

/-- The last name of the path may be that of a file. -/
def EndsInFile (p : Path) : Prop := ∃ names n, p.names = names ++ [n] ∧ n ≠ Name.up

theorem endsInFile_iff : p.EndsInFile ↔ p.names.getLast?.any (· ≠ Name.up) = true := by
  constructor
  · rintro ⟨names, n, hnames, hn⟩
    simp [hnames, hn]
  · intro h
    cases hlast : p.names.getLast? with
    | none =>
      rw [hlast] at h
      cases h
    | some n =>
      rw [hlast] at h
      obtain ⟨names, hnames⟩ := List.getLast?_eq_some_iff.mp hlast
      exact ⟨names, n, hnames, of_decide_eq_true h⟩

instance : DecidablePred EndsInFile := fun _ => decidable_of_iff _ endsInFile_iff.symm

namespace EndsInFile

theorem join (hq : q.EndsInFile) (p : Path) : (p.join q).EndsInFile := by
  obtain ⟨names, n, hnames, hn⟩ := hq
  cases hanchored : q.isAnchored with
  | true => exact ⟨names, n, by rw [join_of_anchored hanchored, hnames], hn⟩
  | false =>
    refine ⟨p.names ++ names, n, ?_, hn⟩
    rw [join_of_relative hanchored, hnames, List.append_assoc]

/-- A name with `..` behind it leads to where the path without it leads. -/
theorem normal_outward (hp : p.EndsInFile) : p.outward.normal = p.parent.normal := by
  obtain ⟨names, n, hnames, hn⟩ := hp
  have hwalk : walk p.isAnchored (p.names ++ [Name.up]) = walk p.isAnchored p.parent.names := by
    rw [parent, hnames, List.dropLast_concat, walk_append, walk_append]
    exact Trail.push_push_up hn _
  rw [outward, join_of_relative rfl]
  exact normal_eq_of_walk rfl hwalk

/-- The directory of a normal form is the normal form of the directory. -/
theorem directory?_normal (hp : p.EndsInFile) : p.normal.directory? = some p.parent.normal := by
  obtain ⟨names, n, hnames, hn⟩ := hp
  have hparent : p.parent = ⟨p.anchor, names⟩ := by simp [parent, hnames]
  have hnormal : p.normal = ⟨p.anchor, p.parent.normal.names ++ [n]⟩ := by
    have hpush : walk p.isAnchored p.names = (walk p.isAnchored names).push p.isAnchored n := by
      rw [hnames, walk_append]
      rfl
    rw [normal, hpush, hparent]
    simp [Trail.push, hn, normal, isAnchored]
  rw [hnormal]
  simp [directory?, parent, normal]

/-- However a module's path is written, `..` behind it leads to the directory of the module. -/
theorem directory?_eq_outward (hp : p.normal.EndsInFile) :
    p.normal.directory? = some p.outward.normal := by
  have hcanonical : p.normal.normal = p.normal := normal_isCanonical p
  have hdirectory := hp.directory?_normal
  rw [hcanonical, ← hp.normal_outward, outward, normal_normal_join] at hdirectory
  exact hdirectory

end EndsInFile

/-- One level of a chain. -/
theorem follow_cons {directory : Path → Path} (hp : p.normal.directory? = some (directory p).normal)
    (written : Text) (chain : List Text) : p.normal.follow (written :: chain) =
      ((directory p).join (parse written)).normal.follow chain := by
  rw [follow, hp, Option.bind_some, target, normal_normal_join]

/-- **A chain of includes leads to the normal form of the whole path**, if the canonical paths on
the way are those of files, however the paths are written. -/
theorem follow_eq_spelledOut {chain : List Text}
    (h : ∀ front c, front <+: chain → front ≠ chain → p.normal.follow front = some c →
      c.EndsInFile) :
    p.normal.follow chain = some (p.spelledOut outward chain).normal := by
  induction chain generalizing p with
  | nil => rfl
  | cons written chain ih =>
    have hp : p.normal.EndsInFile := h [] p.normal List.nil_prefix (List.cons_ne_nil _ _).symm rfl
    have hstep := fun chain => follow_cons hp.directory?_eq_outward written chain
    rw [hstep, spelledOut]
    refine ih fun front c hfront hne hc => h (written :: front) c ?_ (by simpa using hne) ?_
    · exact List.cons_prefix_cons.mpr ⟨rfl, hfront⟩
    · rw [hstep, hc]

/-- If the paths end in names of files as they are written, each of them may lose its last name
instead. -/
theorem follow_eq_spelledOut_parent {chain : List Text}
    (h : ∀ q ∈ (p :: chain.map parse).dropLast, q.EndsInFile) :
    p.normal.follow chain = some (p.spelledOut parent chain).normal := by
  induction chain generalizing p with
  | nil => rfl
  | cons written chain ih =>
    rw [List.map_cons, List.dropLast_cons_cons] at h
    obtain ⟨hp, hchain⟩ := List.forall_mem_cons.mp h
    rw [follow_cons hp.directory?_normal, spelledOut]
    refine ih ?_
    cases chain with
    | nil => exact fun q hq => nomatch hq
    | cons written' chain =>
      rw [List.map_cons, List.dropLast_cons_cons] at hchain ⊢
      obtain ⟨hwritten, hchain⟩ := List.forall_mem_cons.mp hchain
      exact List.forall_mem_cons.mpr ⟨hwritten.join p.parent, hchain⟩

/-- **Normalising is a congruence for joining.** Each of two joined paths may be replaced by its
normal form, so a row of joined paths has the same normal form if it is normalised after every join.
Along a chain of includes each include path is joined to the directory of the canonical path of the
module before it, and normalised. If the canonical paths on the way are those of files, this gives
the normal form of the whole path, in which `..` leads from each module to its directory; and where
the paths end in names of files as they are written, also of the whole path in which each of them
has lost its last name. -/
theorem normal_join_congr :
    (∀ a b : Path, (a.join b).normal = (a.normal.join b).normal ∧
      (a.join b).normal = (a.join b.normal).normal ∧
      (a.join b).normal = (a.normal.join b.normal).normal) ∧
    (∀ (a : Path) (bs : List Path),
      bs.foldl (fun c b => (c.join b).normal) a.normal = (bs.foldl join a).normal) ∧
    (∀ (p : Path) (chain : List Text),
      (∀ front c, front <+: chain → front ≠ chain → p.normal.follow front = some c →
        c.EndsInFile) →
      p.normal.follow chain = some (p.spelledOut outward chain).normal) ∧
    ∀ (p : Path) (chain : List Text),
      (∀ q ∈ (p :: chain.map parse).dropLast, q.EndsInFile) →
      p.normal.follow chain = some (p.spelledOut parent chain).normal := by
  refine ⟨fun a b => ⟨?_, ?_, ?_⟩, fun a bs => ?_, fun p chain => follow_eq_spelledOut,
    fun p chain => follow_eq_spelledOut_parent⟩
  · rw [normal_normal_join]
  · rw [normal_join_normal]
  · rw [normal_normal_join, normal_join_normal]
  · induction bs generalizing a with
    | nil => rfl
    | cons b bs ih => rw [List.foldl_cons, List.foldl_cons, normal_normal_join, ih]

/-- Three modules, of which the second is included by a path that climbs and comes back, and the
third by one that climbs above the root. -/
theorem normal_join_congr_climbing :
    let p := Path.parse "/p/./main".toList
    let chain := ["../p/lib/b".toList, "../../../common/c".toList]
    (∀ front c, front <+: chain → front ≠ chain → p.normal.follow front = some c → c.EndsInFile) ∧
      (∀ q ∈ (p :: chain.map parse).dropLast, q.EndsInFile) ∧
      p.spelledOut outward chain = .parse "/p/main/../../p/lib/b/../../../../common/c".toList ∧
      p.spelledOut parent chain = .parse "/p/../p/lib/../../../common/c".toList ∧
      (p.spelledOut outward chain).normal = (p.spelledOut parent chain).normal ∧
      p.normal.follow chain = some (.parse "/common/c".toList) := by
  intro p chain
  have hcanonical : ∀ front c, front <+: chain → front ≠ chain → p.normal.follow front = some c →
      c.EndsInFile := by
    intro front c hfront hne hc
    obtain rfl | ⟨front, rfl, hrest⟩ := List.prefix_cons_iff.mp hfront
    · exact Option.some.inj hc ▸ (by decide +kernel : p.normal.EndsInFile)
    obtain rfl | ⟨front, rfl, hend⟩ := List.prefix_cons_iff.mp hrest
    · have hb : p.normal.follow ["../p/lib/b".toList] = some (.parse "/p/lib/b".toList) := by
        decide +kernel
      exact Option.some.inj (hb.symm.trans hc) ▸ (by decide +kernel)
    · rw [List.prefix_nil.mp hend] at hne
      exact absurd rfl hne
  have hwritten : ∀ q ∈ (p :: chain.map parse).dropLast, q.EndsInFile := by decide +kernel
  have hspelled : p.spelledOut parent chain = .parse "/p/../p/lib/../../../common/c".toList := by
    decide +kernel
  obtain ⟨-, -, hfollow, hfollow'⟩ := normal_join_congr
  have hwhole := (hfollow p chain hcanonical).symm.trans (hfollow' p chain hwritten)
  have hnormal : (p.spelledOut parent chain).normal = .parse "/common/c".toList := by
    decide +kernel
  exact ⟨hcanonical, hwritten, by decide +kernel, hspelled, Option.some.inj hwhole,
    (hfollow' p chain hwritten).trans (congrArg some hnormal)⟩

end Path

end ShaderInclude
