import LexicalPaths.Proofs.Host.Access
import LexicalPaths.Proofs.Path.Window
import LexicalPaths.Proofs.Uri.Split
import LexicalPaths.Provider.Open

/-!
# Addresses within archives

The URI of the filesystem within an archive holds the path of the archive in an encoded form, in
which no mark of the URI is left.  So the path is found again, whatever its characters are, and two
archives never share a filesystem.  The address needs no encoding, since it is not part of the URI.
-/

namespace LexicalPaths

/-- An absolute path as the host writes it. -/
structure HostPath.IsWritten (t : Text) : Prop where
  absolute : (HostPath.ofText t).isAbsolute = true
  clean : HostPath.clean t = t

theorem HostPath.IsWritten.exists_cons {t : Text} (ht : HostPath.IsWritten t) :
    ∃ rest, t = '/' :: rest := by
  have habs : (HostPath.ofText t).slashes ≠ 0 := by simpa [isAbsolute] using ht.absolute
  obtain ⟨count, hcount⟩ := Nat.exists_eq_succ_of_ne_zero habs
  have hclean := ht.clean
  rw [HostPath.clean, toText, if_neg (fun h => habs h.1), hcount, List.replicate_succ,
    List.cons_append] at hclean
  exact ⟨_, hclean.symm⟩

/-! ## The URI of an archive -/

/-- What stands between the scheme of an archive and the mark of its root. -/
def archiveLocation (t : Text) : Text :=
  "file".toList ++ ':' :: '/' :: '/' :: Uri.percentEncode t

theorem archiveUri_eq (archive : HostPath) :
    archiveUri archive =
      "zip".toList ++ ':' :: (archiveLocation archive.toText ++ ['!', '/']) := by
  simp [archiveUri, archiveOpening, archiveLocation]

theorem isVisible_archiveLocation (t : Text) : Uri.IsVisible (archiveLocation t) := by
  have hopening : Uri.IsVisible ("file".toList ++ [':', '/', '/']) := by
    decide
  have hsplit : archiveLocation t =
      "file".toList ++ [':', '/', '/'] ++ Uri.percentEncode t := by
    simp [archiveLocation]
  rw [hsplit]
  exact hopening.append (Uri.isVisible_percentEncode t)

/-- No mark of a URI but its colon is found in the location of an archive. -/
theorem notMem_archiveLocation {c : Char} (hc : Uri.isEncoded c = false) (hcolon : c ≠ ':')
    (t : Text) : c ∉ archiveLocation t := by
  have hletters : ("file".toList ++ ['/', '/']).all Uri.isEncoded = true := by decide
  intro hmem
  have hcases : c ∈ "file".toList ++ ['/', '/'] ∨ c = ':' ∨ c ∈ Uri.percentEncode t := by
    simp only [archiveLocation, List.mem_append, List.mem_cons] at hmem ⊢
    tauto
  rcases hcases with hmem | heq | hmem
  · rw [List.all_eq_true.mp hletters c hmem] at hc
    contradiction
  · exact hcolon heq
  · exact Uri.notMem_percentEncode hc t hmem

theorem archiveFileUri_archiveUri (archive : HostPath) :
    archiveFileUri (archiveUri archive) = archiveLocation archive.toText := by
  have hmark := notMem_archiveLocation (c := '!') rfl (by decide) archive.toText
  have hopening : archiveUri archive =
      archiveOpening ++ (archiveLocation archive.toText ++ ['!', '/']) := by
    simp [archiveUri_eq, archiveOpening]
  have hdrop : (archiveUri archive).drop archiveOpening.length =
      archiveLocation archive.toText ++ ['!', '/'] := by
    rw [hopening, List.drop_left]
  have hprefix : archiveOpening.isPrefixOf (archiveUri archive) = true := by
    rw [hopening, List.isPrefixOf_iff_prefix]
    exact List.prefix_append _ _
  rw [archiveFileUri, if_pos hprefix, hdrop, Text.before_append_cons hmark]

theorem split_archiveUri (archive : HostPath) :
    ∃ parts, Uri.split (archiveUri archive) = .ok parts ∧
      parts.scheme = Providers.archiveScheme := by
  have hmark : ∀ c, Uri.isEncoded c = false → c ≠ ':' → c ≠ '!' →
      c ∉ archiveLocation archive.toText ++ ['!', '/'] := by
    intro c hc hcolon hend hmem
    rcases List.mem_append.mp hmem with hmem | hmem
    · exact notMem_archiveLocation hc hcolon _ hmem
    · have hslash : c ≠ '/' := by
        rintro rfl
        exact absurd hc (by decide)
      simp [hend, hslash] at hmem
  have hvisible : Uri.IsVisible
      ("zip".toList ++ ':' :: (archiveLocation archive.toText ++ ['!', '/'])) := by
    have hopening : Uri.IsVisible ("zip".toList ++ [':']) := by decide
    have hend : Uri.IsVisible ['!', '/'] := by decide
    have hall := hopening.append ((isVisible_archiveLocation archive.toText).append hend)
    simpa using hall
  have hscheme : Uri.isScheme "zip".toList = true := by decide
  have hsplit := Uri.split_of_path hscheme hvisible rfl
    (hmark '#' rfl (by decide) (by decide)) (hmark '?' rfl (by decide) (by decide))
  have hlower : "zip".toList.map Char.toLower = Providers.archiveScheme := by decide
  rw [archiveUri_eq]
  exact ⟨_, hsplit, hlower⟩

/-- The location of an archive is split into the scheme of local files and the encoded path. -/
theorem split_archiveLocation {t : Text} (ht : HostPath.IsWritten t) :
    Uri.split (archiveLocation t) =
      .ok ⟨Providers.localScheme, [], Uri.percentEncode t, [], []⟩ := by
  have hauthority : Uri.splitAuthority ('/' :: '/' :: Uri.percentEncode t) =
      ([], Uri.percentEncode t) := by
    obtain ⟨rest, rfl⟩ := ht.exists_cons
    rw [Uri.percentEncode_slash]
    rfl
  have hscheme : Uri.isScheme "file".toList = true := by decide
  exact Uri.split_of_path hscheme (isVisible_archiveLocation t) hauthority
    (Uri.notMem_percentEncode rfl t) (Uri.notMem_percentEncode rfl t)

theorem archiveUri_injective {s t : Text} (hs : HostPath.IsWritten s) (ht : HostPath.IsWritten t)
    (huri : archiveUri (.ofText s) = archiveUri (.ofText t)) : s = t := by
  have hsame : archiveLocation s = archiveLocation t := by
    have hsclean : (HostPath.ofText s).toText = s := hs.clean
    have htclean : (HostPath.ofText t).toText = t := ht.clean
    rw [← hsclean, ← htclean, ← archiveFileUri_archiveUri, huri, archiveFileUri_archiveUri]
  simp only [archiveLocation, List.append_cancel_left_eq, List.cons.injEq, true_and] at hsame
  exact Uri.percentEncode_injective hsame

/-! ## Addresses -/

/-- The slash in front of an address is taken off again. -/
theorem archiveAddress_slash {address : Text} (hback : '\\' ∉ address)
    (hslash : address.head? ≠ some '/') : archiveAddress ('/' :: address) = address := by
  have hsame : Text.replaceChar ('/' :: address) '\\' ['/'] = '/' :: address :=
    Text.replaceChar_of_notMem (by simpa using hback) _
  rw [archiveAddress, hsame]
  cases address with
  | nil => rfl
  | cons c address =>
      have hc : (c == '/') = false := by simpa using hslash
      simp [hc]

/-! ## Opening -/

/-- The text names a file, and what it holds is an archive. -/
def Host.NamesArchive (host : Host) (t : Text) : Prop :=
  ∃ bytes, (Act.readNamed t).result host = (.ok bytes, host) ∧ Archive.check bytes = .ok ()

namespace Act

variable {host last : Host} {t : Text}

/-- What is read under a name is read from the path that the name spells. -/
theorem readNamed_eq_ok {bytes : List UInt8}
    (hresult : (readNamed t).result host = (.ok bytes, last)) :
    (readBytes (.ofText t)).result host = (.ok bytes, host) := by
  unfold readNamed at hresult
  rw [bind_of_ok (result_get host)] at hresult
  split at hresult
  · nomatch hresult
  next hnull =>
    split at hresult
    · nomatch hresult
    · split at hresult
      · nomatch hresult
      next hallowed =>
        obtain ⟨found, later, hread, hrest⟩ := bind_eq_ok hresult
        obtain ⟨hok, rfl⟩ := lift_eq_ok hread
        split at hrest
        · nomatch hrest
        · obtain ⟨hfound, -⟩ := Prod.mk.inj hrest
          obtain rfl := Except.ok.inj hfound
          refine onFiles_of_ok ?_ hallowed hok
          rw [List.any_eq_false]
          intro n hn hholds
          have hpiece := (List.mem_filter.mp hn).1
          have hmem := Text.mem_of_mem_splitAt hpiece (Text.holds_iff.mp hholds)
          exact hnull (Text.holds_iff.mpr hmem)

theorem archiveUriOf_of_isWritten (ht : HostPath.IsWritten t) :
    (archiveUriOf t).result host = (.ok (archiveUri (.ofText t)), host) := by
  have habsolute : (absolute (.ofText t)).result host = (.ok (.ofText t), host) := by
    rw [absolute, bind_of_ok (result_get host), HostPath.join, if_pos ht.absolute]
    rfl
  rw [archiveUriOf, bind_of_ok habsolute]
  rfl

section

variable (ht : HostPath.IsWritten t) (harchive : host.NamesArchive t)
include ht harchive

theorem pathInArchive_of_namesArchive (address : Text) :
    (pathInArchive t address).result host =
      (.ok (Path.parse (archiveUri (.ofText t)) ('/' :: address)), host) := by
  obtain ⟨bytes, hread, hcheck⟩ := harchive
  rw [pathInArchive, bind_of_ok hread, checkArchive, bind_of_ok (lift_of_ok hcheck),
    bind_of_ok (archiveUriOf_of_isWritten ht)]
  rfl

theorem openArchive_of_namesArchive {address : Text} (hback : '\\' ∉ address)
    (hslash : address.head? ≠ some '/') :
    (openArchive (archiveUri (.ofText t)) ('/' :: address)).result host =
      (.ok (.archive (.ofText t) address), host) := by
  obtain ⟨bytes, hread, hcheck⟩ := harchive
  have hclean : (HostPath.ofText t).toText = t := ht.clean
  have hsplit : Uri.split (archiveFileUri (archiveUri (.ofText t))) =
      .ok ⟨Providers.localScheme, [], Uri.percentEncode t, [], []⟩ := by
    rw [archiveFileUri_archiveUri, hclean, split_archiveLocation ht]
  rw [openArchive, bind_of_ok (lift_of_ok hsplit)]
  simp only [ne_eq, not_true_eq_false, if_false, Uri.percentDecode_percentEncode]
  rw [bind_of_ok (readNamed_eq_ok hread), checkArchive, bind_of_ok (lift_of_ok hcheck),
    archiveAddress_slash hback hslash]
  rfl

end

/-- An address within an archive is found again from its path, and archives at different places have
different filesystems. -/
theorem openPath_pathInArchive
    (hprovider : host.providers.get? Providers.archiveScheme = some .archive) :
    (∀ t address, HostPath.IsWritten t → host.NamesArchive t → '\\' ∉ address →
      address.head? ≠ some '/' →
      (pathInArchive t address >>= openPath).result host =
        (.ok (some (.archive (.ofText t) address)), host)) ∧
      ∀ s t, HostPath.IsWritten s → HostPath.IsWritten t →
        (archiveUriOf s).result host = (archiveUriOf t).result host → s = t := by
  constructor
  · intro t address ht harchive hback hslash
    obtain ⟨parts, hsplit, hscheme⟩ := split_archiveUri (.ofText t)
    have huri : (Path.parse (archiveUri (.ofText t)) ('/' :: address)).uri =
        archiveUri (.ofText t) := rfl
    have hraw : (Path.parse (archiveUri (.ofText t)) ('/' :: address)).raw = '/' :: address :=
      Path.raw_withRoot _ _ _ _
    rw [bind_of_ok (pathInArchive_of_namesArchive ht harchive address), openPath, huri, hraw,
      bind_of_ok (lift_of_ok hsplit), bind_of_ok (result_get host), hscheme, hprovider]
    simp only []
    rw [bind_of_ok (openArchive_of_namesArchive ht harchive hback hslash)]
    rfl
  · intro s t hs ht hsame
    rw [archiveUriOf_of_isWritten hs, archiveUriOf_of_isWritten ht] at hsame
    exact archiveUri_injective hs ht (Except.ok.inj (Prod.mk.inj hsame).1)

theorem namesArchive_of_read {bytes : List UInt8} (hnull : '\x00' ∉ t) (hne : t ≠ [])
    (hallowed : host.machine.denies .read (.ofText t) = none)
    (hread : host.files.read host.machine.links host.folder (.ofText t) = .ok bytes)
    (hfile : namesFolder t = false) (hcheck : Archive.check bytes = .ok ()) :
    host.NamesArchive t := by
  refine ⟨bytes, ?_, hcheck⟩
  unfold readNamed
  rw [bind_of_ok (result_get host)]
  simp only [Text.holds_iff, hnull, hne, hallowed, hfile, if_false, Bool.false_eq_true]
  rw [bind_of_ok (lift_of_ok hread)]
  rfl

/-- The end of an archive is an archive without members. -/
def emptyArchive : List UInt8 :=
  Archive.endMark ++ List.replicate 18 0

theorem check_emptyArchive : Archive.check emptyArchive = .ok () := by
  have hdirectory : Archive.directory emptyArchive = .ok [] := by decide
  rw [Archive.check, hdirectory]
  show Archive.checkEntries [] = .ok ()
  rw [Archive.checkEntries, if_pos rfl]

/-- A host with an archive that has no members, under a name full of marks. -/
def archiveHost : Host where
  machine := .plain
  files := [([" a!#?%:".toList], .file emptyArchive)]
  folder := []
  environment := []
  homes := []
  program := .ofNames []
  time := []
  config? := none
  providers := .initial
  logger := ⟨Level.info, none⟩
  records := []
  shown := []

/-- Neither the marks in the path of an archive nor its second slash get lost. -/
theorem openPath_pathInArchive_of_marks :
    HostPath.IsWritten "// a!#?%:".toList ∧ archiveHost.NamesArchive "// a!#?%:".toList ∧
      (pathInArchive "// a!#?%:".toList "x!y".toList >>= openPath).result archiveHost =
        (.ok (some (.archive ⟨2, [" a!#?%:".toList]⟩ "x!y".toList)), archiveHost) := by
  have hpath : HostPath.ofText "// a!#?%:".toList = ⟨2, [" a!#?%:".toList]⟩ := by decide
  have hread : archiveHost.files.read archiveHost.machine.links archiveHost.folder
      (.ofText "// a!#?%:".toList) = .ok emptyArchive := by
    decide +kernel
  have hwritten : HostPath.IsWritten "// a!#?%:".toList := ⟨by decide, by decide⟩
  have harchive : archiveHost.NamesArchive "// a!#?%:".toList :=
    namesArchive_of_read (by decide) (by decide) rfl hread (by decide) check_emptyArchive
  have hprovider : archiveHost.providers.get? Providers.archiveScheme = some .archive := rfl
  have hopen := (openPath_pathInArchive hprovider).1 _ "x!y".toList hwritten harchive (by decide)
    (by decide)
  rw [hpath] at hopen
  exact ⟨hwritten, harchive, hopen⟩

end Act

end LexicalPaths
