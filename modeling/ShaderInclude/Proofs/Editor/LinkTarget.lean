import ShaderInclude.Proofs.Editor.Definition
import ShaderInclude.Proofs.Editor.Shadowing
import ShaderInclude.Proofs.Uri.FilePath

/-!
# Opening the target of a link

An editor opens the target of a link by its address, so the path that the document stands for is the
one that the address leads to, and not the one from which the link was made. Resolution reads the
opened document in place of the file only if both are the same.

They are, wherever the writer of addresses encodes the path. The main statement is
`opened_target_stands`: such a path is led back to by its address, and a document that is opened as
the target of a directive stands for the path that resolution reads for the directive.
-/

namespace ShaderInclude

namespace Editor

variable {s : Session} {write : Uri.Writer} {uri : Address} {text : Text} {p : Path}

/-! ### Documents with links -/

theorem Session.reply_links (w : Surroundings) (s : Session) (uri : Address) :
    (s.serve w (.links uri)).1.reply = (s.links w.writer uri).map .links := rfl

/-- A document has links if the writer encodes all targets. -/
theorem Session.exists_links (htext : s.documents.get? uri = some text)
    (hpath : Uri.toPath uri = .ok p)
    (hwrite : ∀ d ∈ Directive.scan text, write.Encodes (Path.target p.parent d.path)) :
    ∃ links, s.links write uri = .ok links := by
  cases hlinks : s.links write uri with
  | ok links => exact ⟨links, rfl⟩
  | error fault =>
    obtain ⟨before, d, after, hscan, -, hfault⟩ := (links_eq_error_iff htext hpath).mp hlinks
    have hencodes := hwrite d (hscan ▸ List.mem_append_right before List.mem_cons_self)
    rw [leadsTo, hencodes.ofPath_eq] at hfault
    cases hfault

/-- The link of a directive leads back to the target of the directive, if the writer encodes it. -/
theorem toPath_of_leadsTo {d : Directive} {a : Address} (hroot : p.isAnchored = true)
    (hwrite : write.Encodes (Path.target p.parent d.path))
    (h : leadsTo write p d = .ok (some ⟨a, .atOrigin⟩)) :
    Uri.toPath a = .ok (Path.target p.parent d.path) := by
  have hparent : p.parent.isAnchored = true := hroot
  have hanchored := Path.isAnchored_target hparent d.path
  obtain ⟨a', ha', hback⟩ := Uri.exists_ofPath (Path.target_isCanonical _ _) hanchored hwrite
  have haddress : a' = a := by simpa [leadsTo, ha', Except.map] using h
  exact haddress ▸ hback

/-! ### Opening a document -/

/-- **A document that is opened stands for its path**, and nothing else changes in the tables. -/
theorem Session.tables_opened (w : Surroundings) (s : Session) (text : Text)
    (hpath : Uri.toPath uri = .ok p) :
    (s.serve w (.opened uri text)).2.documents = s.documents.set uri text ∧
      (s.serve w (.opened uri text)).2.buffers = s.buffers.set p uri := by
  have hsame := Activity.sameTables_refresh w uri p text
    (.ofSession ((s.setDocument uri text).setBuffer p uri))
  have hopened : (s.serve w (.opened uri text)).2 = (Activity.refresh w uri p text
      (.ofSession ((s.setDocument uri text).setBuffer p uri))).2.session := by
    simp only [serve, perform, Activity.opened, hpath]
    rfl
  rw [hopened]
  exact ⟨hsame.documents, hsame.buffers⟩

/-- The text of a document that was opened is read at its path, whatever the files hold. -/
theorem Session.reader_opened (w : Surroundings) (s : Session) (text : Text)
    (hpath : Uri.toPath uri = .ok p) (files : FileTree) :
    (s.serve w (.opened uri text)).2.reader files p = .ok text := by
  obtain ⟨hdocuments, hbuffers⟩ := s.tables_opened w text hpath
  refine text?_eq_some_iff.mp ?_ files
  rw [text?, hbuffers, hdocuments]
  simp

/-- **The target of a link leads back to the included file.** Let a writer of addresses encode a
path, behind `file://`. If the path is canonical and begins at a root, its address leads back to it.

So let a document be open at a path from a root, and let the writer encode the targets of its
directives. Then the document has links. Opening the target of the link of a directive registers the
document under exactly the path that resolution reads for the directive, where its text is read from
then on, and changes nothing else in the tables. -/
theorem opened_target_stands (w : Surroundings) :
    (∀ p : Path, p.IsCanonical → p.isAnchored = true → w.writer.Encodes p →
      ∃ a, Uri.ofPath w.writer p = .ok a ∧ Uri.toPath a = .ok p) ∧
    ∀ (s : Session) (uri : Address) (text : Text) (p : Path),
      s.documents.get? uri = some text → Uri.toPath uri = .ok p → p.isAnchored = true →
      (∀ d ∈ Directive.scan text, w.writer.Encodes (Path.target p.parent d.path)) →
      ∃ links, (s.serve w (.links uri)).1.reply = .ok (.links links) ∧
        ∀ (i : Nat) d, (Directive.scan text)[i]? = some d →
          ∃ link, links[i]? = some link ∧
            Uri.toPath link.target = .ok (Path.target p.parent d.path) ∧
            ∀ (w' : Surroundings) (text' : Text),
              let s' := (s.serve w' (.opened link.target text')).2
              s'.buffers = s.buffers.set (Path.target p.parent d.path) link.target ∧
                s'.documents = s.documents.set link.target text' ∧
                ∀ files, s'.reader files (Path.target p.parent d.path) = .ok text' := by
  refine ⟨fun p => Uri.exists_ofPath, fun s uri text p htext hpath hroot hwrite => ?_⟩
  obtain ⟨links, hlinks⟩ := Session.exists_links htext hpath hwrite
  refine ⟨links, by rw [Session.reply_links, hlinks]; rfl, fun i d hd => ?_⟩
  obtain ⟨link, hlink, -, hleads⟩ := Session.exists_link htext hpath hlinks hd
  have hback := toPath_of_leadsTo hroot (hwrite d (List.mem_of_getElem? hd)) hleads
  refine ⟨link, hlink, hback, fun w' text' => ?_⟩
  obtain ⟨hdocuments, hbuffers⟩ := s.tables_opened w' text' hback
  exact ⟨hbuffers, hdocuments, s.reader_opened w' text' hback⟩

/-- A session with one open document, whose path is `/p/a`. -/
def linkingSession (text : Text) : Session :=
  ((Session.ofSettings none { validate := .bool false }).serve Session.noFiles
    (.opened "file:///p/a".toList text)).2

/-- A directive whose target has a percent sign and a space. -/
def escapedText : Text := "& include \"50%/b c\";".toList

/-- Surroundings without files, in which addresses are written as usual. -/
def writingAddresses : Surroundings := { Session.noFiles with writer := .standard }

/-- The target is written with escapes, and the document that is opened there stands for the path
without them. -/
theorem opened_target_stands_escaped :
    let w := writingAddresses
    let s := linkingSession escapedText
    let q := Path.parse "/p/50%/b c".toList
    let a := "file:///p/50%25/b%20c".toList
    (∃ address, Uri.ofPath w.writer q = .ok address ∧ Uri.toPath address = .ok q) ∧
      ∃ link, (s.serve w (.links "file:///p/a".toList)).1.reply = .ok (.links [link]) ∧
        link.target = a ∧
        (s.serve w (.opened link.target "B".toList)).2.buffers.get? q = some a := by
  intro w s q a
  let d : Directive := ⟨.line, "50%/b c".toList, 0, 20⟩
  let link : Link := ⟨d.span (LineIndex.ofText escapedText), a, d.path⟩
  have hscan : Directive.scan escapedText = [d] := by cbv
  have htarget : Path.target (Path.parse "/p/a".toList).parent d.path = q := by decide +kernel
  have hencodes : w.writer.Encodes q := by
    unfold Uri.Writer.Encodes
    decide +kernel
  have hlinks : s.links w.writer "file:///p/a".toList = .ok [link] := by decide +kernel
  have hreply : (s.serve w (.links "file:///p/a".toList)).1.reply = .ok (.links [link]) := by
    rw [Session.reply_links, hlinks]
    rfl
  obtain ⟨hback, hdocuments⟩ := opened_target_stands w
  refine ⟨hback q (htarget ▸ Path.target_isCanonical _ _) rfl hencodes, link, hreply, rfl, ?_⟩
  obtain ⟨links, hreply', hopened⟩ := hdocuments s "file:///p/a".toList escapedText
    (.parse "/p/a".toList) (by decide +kernel) (by decide +kernel) rfl
    (by rw [hscan, List.forall_mem_singleton, htarget]; exact hencodes)
  obtain rfl : [link] = links := Reply.links.inj (Except.ok.inj (hreply.symm.trans hreply'))
  obtain ⟨link', hlink, -, htables⟩ := hopened 0 d (by rw [hscan]; rfl)
  obtain rfl : link = link' := Option.some.inj hlink
  obtain ⟨hbuffers, -⟩ := htables w "B".toList
  rw [hbuffers, htarget]
  exact OrderedMap.get?_set_self _ _ _

end Editor

end ShaderInclude
