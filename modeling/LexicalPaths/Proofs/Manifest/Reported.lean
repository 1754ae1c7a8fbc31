import LexicalPaths.Proofs.Manifest.Accepted
import LexicalPaths.Proofs.Manifest.Folder

/-!
# Manifest files that are reported

How loading the manifest of a folder ends when its file is there.  A manifest is loaded and any
other text is refused, and both are logged.  Bytes that are no text, whole numbers that are too long
to be read, and lists and tables that lie too deep end the loading before that: the failure is
passed on and nothing is logged.
-/

namespace LexicalPaths.Manifest

/-- The record of a manifest that was loaded, which counts its outputs. -/
def loadedRecord (folder : HostPath) (outputs : Manifest) : LogRecord where
  level := .info
  message := "Loaded manifest ".toList ++ (file folder).toText
  attributes := attributes .loaded folder [(Display.entriesKey, .int outputs.length)]

/-- The record of a manifest that was refused, which carries the wording of the fault. -/
def refusedRecord (folder : HostPath) (fault : Fault) : LogRecord where
  level := .error
  message :=
    "Failed to read manifest ".toList ++ (file folder).toText ++ [':', ' '] ++ fault.message
  attributes := attributes .failed folder [(Display.errorKey, .text fault.message)]

/-- The ends of loading that are documented: the manifest is loaded or refused, and one record says
so. -/
inductive Documented (host : Host) (folder : HostPath) : Except Failure Manifest × Host → Prop
  | loaded (outputs : Manifest) :
      Documented host folder (.ok outputs, host.record (loadedRecord folder outputs))
  | refused (fault : Fault) :
      Documented host folder
        (.error (.manifest (.format fault)), host.record (refusedRecord folder fault))

/-- The bytes spell a text that can be read with this room: no whole number in it is too long, and
not too many lists and tables lie in each other. -/
def IsDecodable (room : Nat) (bytes : List UInt8) : Prop :=
  ∃ document, bytes = Utf8.encode document ∧
    (∀ n, Json.readWithin (some room) (Act.unifyLines document) ≠ .error (.tooManyDigits n)) ∧
      Json.readWithin (some room) (Act.unifyLines document) ≠ .error .tooDeep

section

variable {host : Host} {folder : HostPath} {q : Place} {bytes : List UInt8}
  (hfinds : host.Finds (file folder) q bytes) (hreadable : host.Readable (file folder))
  (types? : Option (List Datum))
include hfinds hreadable

theorem readFile_of_undecodable {e : Utf8.Error} (hdecode : Utf8.decode bytes = .error e) :
    (readFile folder types?).result host = (.error (.encoding e), host) := by
  have hlift : (Act.lift Failure.encoding (Utf8.decode bytes)).result host =
      (.error (.encoding e), host) := by
    rw [hdecode]
    rfl
  apply Act.bind_of_error
  rw [Act.readText, Act.bind_of_ok (Act.readBytes_of_finds hfinds hreadable.read)]
  exact Act.bind_of_error hlift

theorem readFile_of_encoded {document : Text} (hbytes : bytes = Utf8.encode document) :
    (readFile folder types?).result host =
      ((loadWithin (some host.machine.nesting) (base folder) types?
        (Act.unifyLines document)).mapError .manifest, host) := by
  have hdecode := Utf8.decode_eq_ok_iff.mpr hbytes
  rw [readFile, Act.bind_of_ok (Act.readText_of_finds hfinds hreadable.read hdecode),
    Act.bind_of_ok (Act.result_get host)]
  dsimp only
  cases loadWithin (some host.machine.nesting) (base folder) types? (Act.unifyLines document) <;>
    rfl

theorem ofFolder_of_loaded {outputs : Manifest}
    (hread : (readFile folder types?).result host = (.ok outputs, host)) :
    (ofFolder folder types?).result host =
      (.ok outputs, host.record (loadedRecord folder outputs)) := by
  rw [ofFolder, Act.bind_of_ok (Act.isFile_of_finds hfinds hreadable.look), if_pos rfl,
    Act.bind_of_ok (Act.reporting_of_ok hread)]
  rfl

theorem ofFolder_of_failure {failure : Failure} {last : Host}
    (hread : (readFile folder types?).result host = (.error failure, host))
    (hreport : (reportUnread folder failure).result host = (.ok (), last)) :
    (ofFolder folder types?).result host = (.error failure, last) := by
  rw [ofFolder, Act.bind_of_ok (Act.isFile_of_finds hfinds hreadable.look), if_pos rfl]
  exact Act.bind_of_error (Act.reporting_of_error hread hreport)

/-- What can be decoded is loaded or refused, and which of the two does not depend on the types. -/
theorem ofFolder_of_decodable {document : Text} (hbytes : bytes = Utf8.encode document)
    (hlimit : ∀ n, Json.readWithin (some host.machine.nesting) (Act.unifyLines document) ≠
      .error (.tooManyDigits n))
    (hroom : Json.readWithin (some host.machine.nesting) (Act.unifyLines document) ≠
      .error .tooDeep)
    (types? : Option (List Text)) :
    (NoManifest (Act.unifyLines document) ∧ ∃ fault,
      (ofFolder folder (chosen types?)).result host =
        (.error (.manifest (.format fault)), host.record (refusedRecord folder fault))) ∨
    (¬ NoManifest (Act.unifyLines document) ∧ ∃ outputs,
      (ofFolder folder (chosen types?)).result host =
        (.ok outputs, host.record (loadedRecord folder outputs))) := by
  -- There is room for the document, so it is read as it would be without a limit.
  have hsame := (Json.keeps_readWithin host.machine.nesting _).resolve_left hroom
  have hload : ∀ types?, loadWithin (some host.machine.nesting) (base folder) types?
      (Act.unifyLines document) = load (base folder) types? (Act.unifyLines document) := by
    intro types?
    apply loadWithin_of_items
    rw [items, itemsWithin, itemsWithin, hsame]
    rfl
  rw [hsame] at hlimit
  rcases load_cases (base folder) hlimit with ⟨fault, hno, hfree⟩ | ⟨_, outputs, hyes, -, -, hfree⟩
  · refine .inl ⟨hno, fault, ofFolder_of_failure hfinds hreadable _ ?_ rfl⟩
    rw [readFile_of_encoded hfinds hreadable _ hbytes, hload, hfree]
    rfl
  · have hread : (readFile folder (chosen types?)).result host =
        (.ok (outputs.filter fun output => keepsType (chosen types?) output.type), host) := by
      rw [readFile_of_encoded hfinds hreadable _ hbytes, hload, hfree]
      rfl
    exact .inr ⟨hyes, _, ofFolder_of_loaded hfinds hreadable _ hread⟩

/-- A text that cannot be read for another reason than its syntax is passed on as it is. -/
theorem ofFolder_of_unread {document : Text} (hbytes : bytes = Utf8.encode document) {error : Error}
    (hitems : itemsWithin (some host.machine.nesting) (Act.unifyLines document) = .error error)
    (hother : ∀ fault, error ≠ .format fault) :
    (ofFolder folder types?).result host = (.error (.manifest error), host) := by
  refine ofFolder_of_failure hfinds hreadable _ ?_ ?_
  · rw [readFile_of_encoded hfinds hreadable _ hbytes,
      loadWithin_of_items_error (base folder) types? hitems]
    rfl
  · unfold reportUnread
    split
    next heq => exact absurd (Failure.manifest.inj heq) (hother _)
    next => rfl

theorem ofFolder_of_overlong {document : Text} (hbytes : bytes = Utf8.encode document) {n : Nat}
    (hread : Json.readWithin (some host.machine.nesting) (Act.unifyLines document) =
      .error (.tooManyDigits n)) :
    (ofFolder folder types?).result host = (.error (.manifest (.tooManyDigits n)), host) := by
  apply ofFolder_of_unread hfinds hreadable types? hbytes
  · rw [itemsWithin, hread]
  · simp

theorem ofFolder_of_deep {document : Text} (hbytes : bytes = Utf8.encode document)
    (hread : Json.readWithin (some host.machine.nesting) (Act.unifyLines document) =
      .error .tooDeep) :
    (ofFolder folder types?).result host = (.error (.manifest .tooDeep), host) := by
  apply ofFolder_of_unread hfinds hreadable types? hbytes
  · rw [itemsWithin, hread]
  · simp

theorem ofFolder_of_undecodable {e : Utf8.Error} (hdecode : Utf8.decode bytes = .error e) :
    (ofFolder folder types?).result host = (.error (.encoding e), host) :=
  ofFolder_of_failure hfinds hreadable _ (readFile_of_undecodable hfinds hreadable _ hdecode) rfl

end

/-- How loading the manifest of a folder ends by what its file holds. -/
structure Reported (host : Host) (folder : HostPath) (bytes : List UInt8)
    (types? : Option (List Text)) : Prop where
  documented_iff : Documented host folder ((ofFolder folder (chosen types?)).result host) ↔
    IsDecodable host.machine.nesting bytes
  loaded_iff : ∀ document, bytes = Utf8.encode document →
    IsDecodable host.machine.nesting bytes →
      ((∃ outputs, ((ofFolder folder (chosen types?)).result host).1 = .ok outputs) ↔
        ¬ NoManifest (Act.unifyLines document))
  undecodable : ∀ e, Utf8.decode bytes = .error e →
    (ofFolder folder (chosen types?)).result host = (.error (.encoding e), host)
  overlong : ∀ document n, bytes = Utf8.encode document →
    Json.readWithin (some host.machine.nesting) (Act.unifyLines document) =
        .error (.tooManyDigits n) →
      (ofFolder folder (chosen types?)).result host = (.error (.manifest (.tooManyDigits n)), host)
  deep : ∀ document, bytes = Utf8.encode document →
    Json.readWithin (some host.machine.nesting) (Act.unifyLines document) = .error .tooDeep →
      (ofFolder folder (chosen types?)).result host = (.error (.manifest .tooDeep), host)

/-- Loading a file that the user may read ends as documented exactly if the bytes can be decoded. -/
theorem reported_of_finds {host : Host} {folder : HostPath} {q : Place} {bytes : List UInt8}
    (hfinds : host.Finds (file folder) q bytes) (hreadable : host.Readable (file folder))
    (types? : Option (List Text)) : Reported host folder bytes types? := by
  constructor
  case documented_iff =>
    constructor
    · intro hends
      cases hdecode : Utf8.decode bytes with
      | error e =>
          rw [ofFolder_of_undecodable hfinds hreadable _ hdecode] at hends
          nomatch hends
      | ok document =>
          have hbytes := Utf8.decode_eq_ok_iff.mp hdecode
          refine ⟨document, hbytes, fun n hread => ?_, fun hread => ?_⟩
          · rw [ofFolder_of_overlong hfinds hreadable _ hbytes hread] at hends
            nomatch hends
          · rw [ofFolder_of_deep hfinds hreadable _ hbytes hread] at hends
            nomatch hends
    · rintro ⟨document, hbytes, hlimit, hroom⟩
      rcases ofFolder_of_decodable hfinds hreadable hbytes hlimit hroom types? with
        ⟨-, fault, hresult⟩ | ⟨-, outputs, hresult⟩
      · rw [hresult]
        exact .refused fault
      · rw [hresult]
        exact .loaded outputs
  case loaded_iff =>
    rintro document rfl ⟨other, hbytes, hlimit, hroom⟩
    obtain rfl := Except.ok.inj
      ((Utf8.decode_eq_ok_iff.mpr rfl).symm.trans (Utf8.decode_eq_ok_iff.mpr hbytes))
    rcases ofFolder_of_decodable hfinds hreadable rfl hlimit hroom types? with
      ⟨hno, fault, hresult⟩ | ⟨hyes, outputs, hresult⟩
    · exact iff_of_false (by rw [hresult]; simp) (not_not_intro hno)
    · exact iff_of_true ⟨outputs, by rw [hresult]⟩ hyes
  case undecodable => exact fun e he => ofFolder_of_undecodable hfinds hreadable _ he
  case overlong =>
    exact fun document n hbytes hread => ofFolder_of_overlong hfinds hreadable _ hbytes hread
  case deep => exact fun document hbytes hread => ofFolder_of_deep hfinds hreadable _ hbytes hread

/-- A host on which the manifest of the folder `out` holds these bytes. -/
def hostWith (bytes : List UInt8) : Host where
  machine := .plain
  files := [(["out".toList], .folder), (["out".toList, fileName], .file bytes)]
  folder := []
  environment := []
  homes := []
  program := .ofNames []
  time := []
  config? := none
  providers := []
  logger := ⟨Level.info, none⟩
  records := []
  shown := []

theorem finds_hostWith (bytes : List UInt8) :
    (hostWith bytes).Finds (file (.ofText "out".toList)) ["out".toList, fileName] bytes :=
  ⟨rfl, rfl⟩

/-- A file of one byte that no text begins with: the failure to decode it is passed on, and nothing
is logged. -/
theorem not_documented_of_byte :
    (hostWith [0xFF]).Finds (file (.ofText "out".toList)) ["out".toList, fileName] [0xFF] ∧
    Reported (hostWith [0xFF]) (.ofText "out".toList) [0xFF] none ∧
    (ofFolder (.ofText "out".toList) none).result (hostWith [0xFF]) =
      (.error (.encoding ⟨.start, 0, 1, 0xFF⟩), hostWith [0xFF]) ∧
    ¬ Documented (hostWith [0xFF]) (.ofText "out".toList)
      ((ofFolder (.ofText "out".toList) none).result (hostWith [0xFF])) := by
  have hfinds := finds_hostWith [0xFF]
  have hreported := reported_of_finds hfinds ⟨rfl, rfl⟩ none
  have hresult := hreported.undecodable _ rfl
  refine ⟨hfinds, hreported, hresult, ?_⟩
  rw [show (none : Option (List Datum)) = chosen none from rfl, hresult]
  exact nofun

end LexicalPaths.Manifest
