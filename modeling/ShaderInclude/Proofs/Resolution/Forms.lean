import ShaderInclude.Proofs.Directive.Alike
import ShaderInclude.Proofs.Resolution.Substitution

/-!
# The two forms in a module

A module that includes another one on lines of its own can do so in either form. If all directives
of a source have one target, the code of the source is the source filled with the code of the module
there (`map_code_expandSource`); and what is handed out for a root depends on its source through this
code alone, whether the source is supplied or stored (`Loader.map_code_loadCanonical`,
`Loader.RootCode.eq`).

Main statement: `rootCode_eq_iff_alike`. The two forms give the same code wherever the text before
the directive and the text behind it are `Directive.Alike`, and different codes wherever they are
not, but for what a block comment around the line may come to. `rootCode_ne` is a line that has only
a blank line behind it.
-/

namespace ShaderInclude

variable {reader : Reader} {limit : Nat} {referrer directory : Path} {ancestors : List Path}
  {s : CacheState} {source p : Text}

/-! ### A source with one target -/

/-- **A source with one target is filled with the code of the module there**, and cannot be resolved
if this module cannot. -/
theorem map_code_expandSource (hscan : Directive.scan source ≠ [])
    (hpath : ∀ d ∈ Directive.scan source, d.path = p) :
    (expandSource (resolve reader limit referrer ancestors) directory source s).1.map Module.code =
      (resolve reader limit referrer ancestors (.target directory p) s).1.map
        fun included => Directive.fill included.code source := by
  have htargets : ∀ d ∈ (Directive.scan source).reverse,
      Path.target directory d.path = .target directory p :=
    fun d hd => congrArg _ (hpath d (List.mem_reverse.mp hd))
  obtain ⟨d, ds, hds⟩ := List.exists_cons_of_ne_nil (mt List.reverse_eq_nil_iff.mp hscan)
  obtain ⟨htarget, hrest⟩ := List.forall_mem_cons.mp (hds ▸ htargets)
  have hrun : expandSource (resolve reader limit referrer ancestors) directory source s =
      expand (resolve reader limit referrer ancestors) directory (d :: ds) (Module.raw source) s := by
    rw [← hds]
    rfl
  rw [expand] at hrun
  simp only [htarget] at hrun
  cases hresolve : resolve reader limit referrer ancestors (.target directory p) s with
  | mk r s₁ =>
    rw [hresolve] at hrun
    cases r with
    | error e =>
      rw [hrun]
      rfl
    | ok included =>
      have hderives : Derives reader limit referrer ancestors (.path (.target directory p)) s
          (.ok included) s₁ := derives_iff_run.mpr hresolve
      obtain ⟨htrace, hcached⟩ := hderives.get?_of_ok
      have hlimit : 0 < limit := by
        cases hderives <;> exact Nat.succ_pos _
      -- the other directives find the module in the cache
      let assigned : Path → Module := fun _ => included
      let s₂ := s₁.note (.spliced (.target directory p) d.start d.stop)
      have hassigned : ∀ e ∈ ds, .target directory e.path ∉ referrer :: ancestors ∧
          s₂.cache.get? (.target directory e.path) = some (assigned (.target directory e.path)) :=
        fun e he => by
          rw [hrest e he]
          exact ⟨htrace, hcached⟩
      obtain ⟨m, s', hexpand, hcache⟩ := exists_expand_of_cached reader
        ((Module.raw source).splice d (.target directory p) included) hlimit hassigned
      have hsource : Derives reader limit referrer ancestors (.ofSource directory source) s (.ok m)
          s' := derives_iff_run.mpr (hrun.trans hexpand)
      have hassigned' : ∀ e ∈ Directive.scan source,
          s'.cache.get? (.target directory e.path) = some (assigned (.target directory e.path)) :=
        fun e he => by
          rw [hpath e he, hcache]
          exact hcached
      rw [hrun.trans hexpand]
      exact congrArg Except.ok (hsource.code_eq_foldr hassigned')

/-! ### What is handed out -/

namespace Loader

variable {l l' : Loader} {q : Path} {supplied : Option Text} {s₀ : CacheState}

/-- What the validator makes of a code. -/
def approve (l : Loader) (code : Text) : Except LoadError Text :=
  match l.refusal? code with
  | none => .ok code
  | some e => .error (.finding e)

/-- **What is handed out for the source of a root depends on its code alone.** -/
theorem map_code_loadCanonical (h : RootSource l q s supplied source s₀)
    (hdir : q.directory? = some directory) :
    (l.loadCanonical q supplied s).1.map Module.code =
      ((expandSource (resolve l.reader l.limit q []) directory source s₀).1.map Module.code).bind
        l.approve := by
  rw [loadCanonical, hdir]
  dsimp only
  rw [h.root_eq, resolveRoot]
  rcases expandSource (resolve l.reader l.limit q []) directory source s₀ with ⟨_ | m, s₁⟩
  · rfl
  · -- a new root has no mark
    have hmark : q ∉ (s₁.withCache (s₁.cache.unaccept q)).cache.accepted := by simp
    simp only [check_eq, if_neg hmark]
    change _ = l.approve m.code
    rw [approve]
    cases l.refusal? m.code <;> rfl

/-- Two loaders differ in nothing but what is stored at a path. -/
structure AgreeBut (l l' : Loader) (q : Path) : Prop where
  reader : ∀ p, p ≠ q → l'.reader p = l.reader p
  refusal? : ∀ code, l'.refusal? code = l.refusal? code
  limit : l'.limit = l.limit

/-- **The code with which a root ends that has a given source**, or its error: the source is
supplied, or it is stored at the path of the root, where the loader may have another one. -/
inductive RootCode (l : Loader) (q : Path) (source : Text) (s : CacheState) :
    Except LoadError Text → Prop
  | supplied : RootCode l q source s ((l.load q source s).1.map Module.code)
  | stored {l' : Loader} (hagree : l.AgreeBut l' q.normal)
      (hread : l'.reader q.normal = .ok source) (hcached : s.cache.get? q.normal = none) :
    RootCode l q source s ((l'.loadFromPath q s).1.map Module.code)

/-- It makes no difference whether the source is supplied or stored. -/
theorem RootCode.eq {r : Except LoadError Text} (h : l.RootCode q source s r) :
    r = (l.load q source s).1.map Module.code := by
  cases h with
  | supplied => rfl
  | @stored l' hagree hread hcached =>
    cases hdir : q.normal.directory? with
    | none =>
      rw [load, loadFromPath, loadCanonical, loadCanonical, hdir]
    | some directory =>
      have happrove : l'.approve = l.approve := by
        funext code
        rw [approve, approve, hagree.refusal?]
      -- below the root nothing is read at its path
      have hreader : ∀ p, p ∉ q.normal :: [] → l'.reader p = l.reader p :=
        fun p hp => hagree.reader p (by simpa using hp)
      have hrun : ((Task.ofSource directory source).run l'.reader l.limit q.normal []
          (s.note (.read q.normal))).1 =
          ((Task.ofSource directory source).run l.reader l.limit q.normal [] s).1 :=
        Task.fst_run_congr _ hreader rfl
      rw [load, loadFromPath, map_code_loadCanonical (.read hcached hread) hdir,
        map_code_loadCanonical .supplied hdir, happrove, hagree.limit, expandSource_eq_run, hrun]
      rfl

end Loader

/-! ### A line or a block -/

/-- **A line and a block give the same code exactly where they replace the same.** Let a directive
stand on lines of its own, in the source of a root. If the texts before and behind it are alike for
the two forms, the roots with a line and with a block end with the same code, or with the same
error. Whenever the target of the directive can be resolved, both sources are resolved as well, and
what is left to the validator are two codes that are equal exactly if the texts are alike; if they
enclose the line in a block comment, the codes differ at least where the included code is empty. -/
theorem rootCode_eq_iff_alike {x y : Text} (h : Directive.Framed x p y) :
    (Directive.Alike x y → ∀ (l : Loader) (q : Path) (s : CacheState) (r r' : Except LoadError Text),
      l.RootCode q (Directive.framed .line x p y) s r →
      l.RootCode q (Directive.framed .block x p y) s r' → r = r') ∧
    ∀ (l : Loader) (q directory : Path) (s s' : CacheState) (included : Module),
      q.normal.directory? = some directory →
      resolve l.reader l.limit q.normal [] (.target directory p) s = (.ok included, s') →
      ∃ code : Form → Text,
        (∀ f r, l.RootCode q (Directive.framed f x p y) s r → r = l.approve (code f)) ∧
        ((Directive.Enclosed x y → included.code = []) →
          (code .line = code .block ↔ Directive.Alike x y)) := by
  have hload : ∀ (l : Loader) (q directory : Path) (s : CacheState) (f : Form),
      q.normal.directory? = some directory →
      (l.load q (Directive.framed f x p y) s).1.map Module.code =
        ((resolve l.reader l.limit q.normal [] (.target directory p) s).1.map fun included =>
          Directive.fill included.code (Directive.framed f x p y)).bind l.approve := by
    intro l q directory s f hdir
    rw [Loader.load, Loader.map_code_loadCanonical .supplied hdir,
      map_code_expandSource (h.scan_ne_nil f) fun d hd => h.path_of_mem_scan hd]
  refine ⟨fun halike l q s r r' hr hr' => ?_, fun l q directory s s' included hdir hresolve => ?_⟩
  · rw [hr.eq, hr'.eq]
    cases hdir : q.normal.directory? with
    | none => rw [Loader.load, Loader.load, Loader.loadCanonical, Loader.loadCanonical, hdir]
    | some directory => simp only [hload l q directory s _ hdir, h.fill_eq halike]
  · refine ⟨fun f => Directive.fill included.code (Directive.framed f x p y), fun f r hr => ?_,
      fun hinsert => ⟨fun heq => ?_, fun halike => h.fill_eq halike _⟩⟩
    · rw [hr.eq, hload l q directory s f hdir, hresolve]
      rfl
    · by_contra halike
      exact h.fill_ne halike hinsert heq

/-- A directive between two statements: both forms leave the newlines around it. -/
theorem rootCode_eq_iff_alike_between :
    let x := "A;\n".toList
    let y := "\nC".toList
    let b := Path.parse "b".toList
    let l : Loader := ⟨.ofTable (.ofList [(b, "B".toList)]), none, Loader.defaultLimit⟩
    let load := fun f => (l.load (.parse "a".toList) (Directive.framed f x ['b'] y) .initial).1
    Directive.Framed x ['b'] y ∧ Directive.Alike x y ∧
      (load .line).map Module.code = (load .block).map Module.code ∧
      ∃ code : Form → Text, (∀ f, (load f).map Module.code = .ok (code f)) ∧
        code .line = code .block ∧ code .block = "A;\nB\nC".toList := by
  intro x y b l load
  have hframed : Directive.Framed x ['b'] y := ⟨.inr ⟨"A;".toList, rfl⟩, ⟨['C'], rfl⟩, by decide,
    by decide, by decide, by simp [Directive.isQuote]⟩
  have hterminates : Directive.Terminates ['\n'] y.tail := fun _ => by decide
  have halike : Directive.Alike x y := .of_slash_not_mem (by decide) hterminates
  obtain ⟨hsame, hresolved⟩ := rootCode_eq_iff_alike hframed
  obtain ⟨code, hcodes, hiff⟩ := hresolved l (.parse "a".toList) _ .initial _ (.raw "B".toList)
    (show (Path.parse "a".toList).normal.directory? = some (.parse ".".toList) by decide +kernel)
    (Prod.ext (by decide +kernel) rfl)
  have hblock : (load .block).map Module.code = .ok "A;\nB\nC".toList := by decide +kernel
  exact ⟨hframed, halike, hsame halike l _ _ _ _ .supplied .supplied, code,
    fun f => hcodes f _ .supplied,
    (hiff fun henclosed => absurd henclosed halike.not_enclosed).mpr halike,
    Except.ok.inj ((hcodes .block _ .supplied).symm.trans hblock)⟩

/-- **A line takes the blank line behind it**, which a block leaves. -/
theorem rootCode_ne :
    let y := "\n\n".toList
    let b := Path.parse "b".toList
    let l : Loader := ⟨.ofTable (.ofList [(b, "B".toList)]), none, Loader.defaultLimit⟩
    let load := fun f => (l.load (.parse "a".toList) (Directive.framed f [] ['b'] y) .initial).1
    Directive.Framed [] ['b'] y ∧ (load .line).map Module.code = .ok "B\n".toList ∧
      (load .block).map Module.code = .ok "B\n\n".toList := by
  intro y b l load
  exact ⟨⟨.inl rfl, ⟨['\n'], rfl⟩, by decide, by decide, by decide,
    by simp [Directive.isQuote]⟩, by decide +kernel, by decide +kernel⟩

end ShaderInclude
