import InteractiveMarkov.Proofs.Acceptance
import InteractiveMarkov.Proofs.Files

set_option autoImplicit false

namespace InteractiveMarkov

structure Output where
  path : String
  writer : Stream → Except Error Stream

/-- Nothing stands in the way of the output. -/
structure Output.Accepted (output : Output) (storage : Storage) (fs : FileSystem) : Prop where
  creating : storage.creating output.path = none
  writing : storage.writing output.path = none
  writable : ∃ location, fs.writable output.path = .ok location
  written : ∃ stream, output.writer Stream.empty = .ok stream

/-- All outputs are written to their end, or each is as it was or gone, unless the storage does not
    let go of it. Only files change, and only those of the outputs. -/
structure AllOrNothing (outputs : List Output) (storage : Storage) (fs after : FileSystem)
    (fault : Option Error) : Prop where
  succeeds : fault = none ↔ ∀ output ∈ outputs, output.Accepted storage fs
  complete : fault = none → ∀ output ∈ outputs, ∃ stream, output.writer Stream.empty = .ok stream ∧
    after.read output.path = .ok stream.bytes
  clean : fault ≠ none → ∀ output ∈ outputs, storage.removing output.path = none →
    after.entryAt output.path = fs.entryAt output.path ∨ after.entryAt output.path = none
  touches : FileSystem.Touches (outputs.map Output.path) fs after

open FileSystem

variable {storage : Storage} {fs after made : FileSystem} {path : String} {location : Location}
  {writer : Stream → Except Error Stream} {fault : Error}

theorem Storage.remove_ok (h : storage.remove fs path = .ok after) :
    fs.remove path = .ok after := by
  unfold remove at h
  split at h
  · cases h
  · exact h

theorem touches_discard (storage : Storage) (fs : FileSystem) (path : String) :
    Touches [path] fs (discard storage fs path).1 := by
  unfold discard
  split
  · split
    · rename_i hremove
      exact (remove_ok (Storage.remove_ok hremove)).1
    · exact .refl _ _
  · exact .refl _ _

theorem discard_clean (h : storage.removing path = none) :
    (discard storage fs path).1.entryAt path = none ∨
      (discard storage fs path).1 = fs ∧ fs.entryAt path = some .directory := by
  unfold discard
  rw [pathExists_eq, Storage.remove, h]
  cases hentry : fs.entryAt path with
  | none => exact .inl hentry
  | some entry =>
    cases entry with
    | file contents =>
      obtain ⟨found, hremove, -, hgone⟩ := remove_file hentry
      simp only [hremove]
      exact .inl hgone
    | directory =>
      simp only [remove_directory hentry]
      exact .inr ⟨rfl, trivial⟩

theorem Storage.create_ok (h : storage.create fs path = .ok (after, location)) :
    storage.creating path = none ∧ fs.writable path = .ok location ∧
      after = fs.insert location (.file ByteArray.empty) := by
  unfold create at h
  split at h
  · cases h
  · rename_i hnone
    exact ⟨hnone, writable_of_create h⟩

theorem Storage.create_error {fault : AccessFault} (h : storage.create fs path = .error fault) :
    ¬ Output.Accepted ⟨path, writer⟩ storage fs := by
  rintro ⟨hcreating, -, ⟨location, hwritable⟩, -⟩
  rw [create, hcreating, create_of_writable hwritable] at h
  cases h

theorem Storage.write_ok {stream : Stream} (h : storage.write path writer = .ok stream) :
    storage.writing path = none ∧ writer Stream.empty = .ok stream := by
  unfold write at h
  split at h
  · cases h
  · rename_i hnone
    exact ⟨hnone, h⟩

theorem Storage.write_error (h : storage.write path writer = .error fault) :
    ¬ Output.Accepted ⟨path, writer⟩ storage fs := by
  rintro ⟨-, hwriting, -, stream, hstream⟩
  simp only [write, hwriting] at h
  cases h.symm.trans hstream

/-- Removing a file after an error takes back whatever was written of it. -/
theorem failing_allOrNothing (hnot : ¬ Output.Accepted ⟨path, writer⟩ storage fs)
    (htouches : Touches [path] fs made)
    (hmade : made = fs ∨ ∃ contents, made.entryAt path = some (.file contents)) :
    AllOrNothing [⟨path, writer⟩] storage fs (failing storage made path fault).files
      (failing storage made path fault).fault where
  succeeds := ⟨fun h => (nomatch h), fun h => absurd (h _ List.mem_cons_self) hnot⟩
  complete h := nomatch h
  clean _ output houtput hremoving := by
    obtain rfl := List.mem_singleton.1 houtput
    rcases discard_clean hremoving with hgone | ⟨hsame, hdirectory⟩
    · exact .inr hgone
    · rcases hmade with rfl | ⟨contents, hfile⟩
      · exact .inl (congrArg (entryAt · path) hsame)
      · rw [hdirectory] at hfile
        cases hfile
  touches := htouches.trans (touches_discard storage made path)

theorem writeFile_allOrNothing (storage : Storage) (fs : FileSystem) (path : String)
    (writer : Stream → Except Error Stream) :
    AllOrNothing [⟨path, writer⟩] storage fs (writeFile storage fs path writer).files
      (writeFile storage fs path writer).fault := by
  unfold writeFile
  split
  · rename_i hcreate
    exact failing_allOrNothing (Storage.create_error hcreate) (.refl _ _) (.inl rfl)
  · rename_i made location hcreate
    obtain ⟨hcreating, hwritable, rfl⟩ := Storage.create_ok hcreate
    obtain ⟨htouches, -⟩ := touches_insert hwritable ByteArray.empty
    have hagain := htouches.writable_iff.2 hwritable
    split
    · rename_i hwrite
      obtain ⟨hleft, hfile⟩ := touches_insert hagain (storage.left path)
      exact failing_allOrNothing (Storage.write_error hwrite) (htouches.trans hleft)
        (.inr ⟨_, hfile⟩)
    · rename_i stream hwrite
      obtain ⟨hwriting, hstream⟩ := Storage.write_ok hwrite
      obtain ⟨hwhole, hfile⟩ := touches_insert hagain stream.bytes
      refine ⟨⟨fun _ output houtput => ?_, fun _ => rfl⟩, fun _ output houtput => ?_,
        fun h => absurd rfl h, htouches.trans hwhole⟩
      · obtain rfl := List.mem_singleton.1 houtput
        exact ⟨hcreating, hwriting, ⟨location, hwritable⟩, stream, hstream⟩
      · obtain rfl := List.mem_singleton.1 houtput
        exact ⟨stream, hstream, read_eq_ok.2 hfile⟩

section Pair

variable {first second : Output} {whole : FileSystem} {fault : Option Error}

theorem accepted_of_touches {paths : List String} {output : Output}
    (h : Touches paths fs after) :
    output.Accepted storage after ↔ output.Accepted storage fs :=
  ⟨fun ⟨hc, hw, ⟨location, hfree⟩, hs⟩ => ⟨hc, hw, ⟨location, h.writable_iff.1 hfree⟩, hs⟩,
    fun ⟨hc, hw, ⟨location, hfree⟩, hs⟩ => ⟨hc, hw, ⟨location, h.writable_iff.2 hfree⟩, hs⟩⟩

section

variable (hfirst : AllOrNothing [first] storage fs made none)
  (hsecond : AllOrNothing [second] storage made whole fault)

include hfirst hsecond

theorem AllOrNothing.both_touched : Touches ([first, second].map Output.path) fs whole :=
  (hfirst.touches.mono List.mem_cons_self).trans
    (hsecond.touches.mono (List.mem_cons_of_mem _ List.mem_cons_self))

variable (hapart : ∀ location, fs.locate first.path = .ok location →
  fs.locate second.path ≠ .ok location)

include hapart

theorem AllOrNothing.first_stays : ∃ stream, first.writer Stream.empty = .ok stream ∧
    whole.entryAt first.path = some (.file stream.bytes) := by
  obtain ⟨stream, hstream, hread⟩ := hfirst.complete rfl first List.mem_cons_self
  refine ⟨stream, hstream, ?_⟩
  rw [hsecond.touches.entryAt_other, read_eq_ok.1 hread]
  intro location hlocate hsame
  exact hapart location ((hfirst.touches.locate_iff _ _).1 hsame)
    ((hfirst.touches.locate_iff _ _).1 hlocate)

theorem AllOrNothing.second_stays : (discard storage whole first.path).1.entryAt second.path =
    whole.entryAt second.path := by
  have htouches := hfirst.both_touched hsecond
  refine (touches_discard storage whole first.path).entryAt_other fun location hlocate hsame => ?_
  exact hapart location ((htouches.locate_iff _ _).1 hlocate) ((htouches.locate_iff _ _).1 hsame)

/-- Files in different places that are written one after the other, where the first is removed
    again if the second cannot be written. -/
theorem AllOrNothing.pair (hafter : after =
    if fault = none then whole else (discard storage whole first.path).1) :
    AllOrNothing [first, second] storage fs after fault := by
  obtain ⟨stream, hstream, hfile⟩ := hfirst.first_stays hsecond hapart
  have htouches := hfirst.both_touched hsecond
  refine ⟨?_, fun hnone => ?_, fun hsome => ?_, ?_⟩
  · have haccepted := hfirst.succeeds.1 rfl first List.mem_cons_self
    simp only [hsecond.succeeds, List.forall_mem_cons, accepted_of_touches hfirst.touches,
      haccepted, true_and]
  · rw [if_pos hnone] at hafter
    subst hafter
    refine List.forall_mem_cons.2 ⟨⟨stream, hstream, read_eq_ok.2 hfile⟩, hsecond.complete hnone⟩
  · rw [if_neg hsome] at hafter
    subst hafter
    refine List.forall_mem_cons.2 ⟨fun hremoving => ?_, List.forall_mem_singleton.2
      fun hremoving => ?_⟩
    · rcases discard_clean hremoving with hgone | ⟨-, hdirectory⟩
      · exact .inr hgone
      · rw [hfile] at hdirectory
        cases hdirectory
    · rw [hfirst.second_stays hsecond hapart, ← hfirst.touches.entryAt_other hapart]
      exact hsecond.clean hsome second List.mem_cons_self hremoving
  · rw [hafter]
    split
    · exact htouches
    · exact htouches.trans ((touches_discard storage whole first.path).mono List.mem_cons_self)

end

theorem AllOrNothing.alone {e : Error} (h : AllOrNothing [first] storage fs after (some e))
    (hapart : ∀ location, fs.locate first.path = .ok location →
      fs.locate second.path ≠ .ok location) :
    AllOrNothing [first, second] storage fs after (some e) := by
  refine ⟨⟨fun hnone => (nomatch hnone), fun hall => ?_⟩, fun hnone => (nomatch hnone),
    fun hsome => List.forall_mem_cons.2 ⟨h.clean hsome first List.mem_cons_self,
      List.forall_mem_singleton.2 fun _ => .inl (h.touches.entryAt_other hapart)⟩,
    h.touches.mono List.mem_cons_self⟩
  exact h.succeeds.2 (List.forall_mem_singleton.2 (hall first List.mem_cons_self))

end Pair

def Path.IsReadable (path : String) : Prop :=
  ∀ extension, Path.extension? path = some extension → extension = "aut"

theorem readAutomaton_unsupported {extension : String}
    (hextension : Path.extension? path = some extension) (hother : extension ≠ "aut") :
    readAutomaton fs path = .error (.unsupportedInput extension path) := by
  have hsome : (Path.extension? path).filter (· != "aut") = some extension := by
    rw [hextension]
    exact if_pos (by simpa using hother)
  rw [readAutomaton, hsome]

theorem readAutomaton_eq (h : Path.IsReadable path) :
    readAutomaton fs path = (fs.read path).mapError .access >>= Aldebaran.readStored := by
  have hnone : (Path.extension? path).filter (· != "aut") = none := by
    rw [Option.filter_eq_none_iff]
    intro extension hextension
    simpa using h extension hextension
  rw [readAutomaton, hnone]

theorem readAutomaton_file {bytes : ByteArray} (h : Path.IsReadable path)
    (hfile : fs.entryAt path = some (.file bytes)) :
    readAutomaton fs path = Aldebaran.readStored bytes := by
  rw [readAutomaton_eq h, read_eq_ok.2 hfile]
  rfl

theorem readAutomaton_unread {access : AccessFault} (h : Path.IsReadable path)
    (hread : fs.read path = .error access) : readAutomaton fs path = .error (.access access) := by
  rw [readAutomaton_eq h, hread]
  rfl

/-- An automaton is read exactly if a file at the path holds its bytes. -/
theorem readAutomaton_ok_iff {a : Automaton} : readAutomaton fs path = .ok a ↔
    Path.IsReadable path ∧ ∃ bytes, fs.entryAt path = some (.file bytes) ∧
      Aldebaran.readStored bytes = .ok a := by
  constructor
  · intro h
    have hreadable : Path.IsReadable path := by
      intro extension hextension
      by_contra hother
      cases h.symm.trans (readAutomaton_unsupported hextension hother)
    cases hread : fs.read path with
    | error access => cases h.symm.trans (readAutomaton_unread hreadable hread)
    | ok bytes =>
      have hfile := read_eq_ok.1 hread
      exact ⟨hreadable, bytes, hfile, (readAutomaton_file hreadable hfile).symm.trans h⟩
  · rintro ⟨hreadable, bytes, hfile, h⟩
    exact (readAutomaton_file hreadable hfile).trans h

/-- Why nothing is read: the path is one of another format, or no file stands there, or the bytes of
    the file are refused. -/
theorem readAutomaton_error_iff : readAutomaton fs path = .error fault ↔
    (∃ extension, Path.extension? path = some extension ∧ extension ≠ "aut" ∧
      fault = .unsupportedInput extension path) ∨
    Path.IsReadable path ∧ ((∃ access, fs.read path = .error access ∧ fault = .access access) ∨
      ∃ bytes, fs.entryAt path = some (.file bytes) ∧
        Aldebaran.readStored bytes = .error fault) := by
  constructor
  · intro h
    by_cases hreadable : Path.IsReadable path
    · refine .inr ⟨hreadable, ?_⟩
      cases hread : fs.read path with
      | error access =>
        cases h.symm.trans (readAutomaton_unread hreadable hread)
        exact .inl ⟨access, rfl, rfl⟩
      | ok bytes =>
        have hfile := read_eq_ok.1 hread
        exact .inr ⟨bytes, hfile, (readAutomaton_file hreadable hfile).symm.trans h⟩
    · simp only [Path.IsReadable, not_forall] at hreadable
      obtain ⟨extension, hextension, hother⟩ := hreadable
      cases h.symm.trans (readAutomaton_unsupported hextension hother)
      exact .inl ⟨extension, hextension, hother, rfl⟩
  · rintro (⟨extension, hextension, hother, rfl⟩ | ⟨hreadable, ⟨access, hread, rfl⟩ |
      ⟨bytes, hfile, h⟩⟩)
    · exact readAutomaton_unsupported hextension hother
    · exact readAutomaton_unread hreadable hread
    · exact (readAutomaton_file hreadable hfile).trans h

theorem readAutomaton_text {text : String} {a : Automaton} (h : Path.IsReadable path)
    (hfile : fs.entryAt path = some (.file text.toUTF8)) : readAutomaton fs path = .ok a ↔
      ∃ header edges, Aldebaran.Describes text header edges ∧ a = edges.foldl Automaton.extend
        (Automaton.withDeclared header.initial header.states) := by
  rw [readAutomaton_file h hfile]
  constructor
  · intro hread
    obtain ⟨header, edges, hdescribes⟩ := Aldebaran.describes_of_readStored hread
    rw [hdescribes.readStored] at hread
    cases hread
    exact ⟨header, edges, hdescribes, rfl⟩
  · rintro ⟨header, edges, hdescribes, rfl⟩
    exact hdescribes.readStored

def outputsOf (output : String) (settings : OutputSettings) (chain : Chain) :
    ModelFormat → List Output
  | .aldebaran => [⟨output, fun stream => (Aldebaran.write chain stream).map (·.1)⟩]
  | .jani => [⟨output, Jani.write chain settings.modelName settings.pretty⟩]
  | .rateMatrix => [⟨matrixPath output, fun stream => (RateMatrix.write chain stream).map (·.1)⟩,
      ⟨labelsPath output, RateMatrix.writeLabels chain⟩]

theorem matrix_apart_labels (fs : FileSystem) (output : String) (location : Location)
    (h : fs.locate (matrixPath output) = .ok location) :
    fs.locate (labelsPath output) ≠ .ok location := by
  intro hsame
  have heq : "tra" = "lab" :=
    withSuffix_inj (by decide) (by decide) (by decide) (by decide) h hsame
  exact absurd heq (by decide)

theorem writePair_allOrNothing (storage : Storage) (fs : FileSystem) (output : String)
    (settings : OutputSettings) (chain : Chain) :
    AllOrNothing (outputsOf output settings chain .rateMatrix) storage fs
      (writePair storage fs output chain).files (writePair storage fs output chain).fault := by
  have hapart := matrix_apart_labels fs output
  have hfirst := writeFile_allOrNothing storage fs (matrixPath output) fun stream =>
    (RateMatrix.write chain stream).map (·.1)
  unfold writePair
  generalize writeFile storage fs (matrixPath output) _ = first at hfirst ⊢
  obtain ⟨made, notices, fault⟩ := first
  cases fault with
  | some e => exact hfirst.alone hapart
  | none =>
    have hsecond := writeFile_allOrNothing storage made (labelsPath output)
      (RateMatrix.writeLabels chain)
    simp only
    generalize writeFile storage made (labelsPath output) _ = second at hsecond ⊢
    obtain ⟨whole, notices', fault'⟩ := second
    cases fault' with
    | none => exact hfirst.pair hsecond hapart rfl
    | some e => exact hfirst.pair hsecond hapart rfl

theorem writeChain_allOrNothing (storage : Storage) (fs : FileSystem) (output : String)
    (format : ModelFormat) (settings : OutputSettings) (chain : Chain) :
    AllOrNothing (outputsOf output settings chain format) storage fs
      (writeChain storage fs output format settings chain).files
      (writeChain storage fs output format settings chain).fault := by
  cases format with
  | aldebaran => exact writeFile_allOrNothing storage fs output _
  | jani => exact writeFile_allOrNothing storage fs output _
  | rateMatrix => exact writePair_allOrNothing storage fs output settings chain

namespace Command

/-- The chain that a command makes of its input, as it stands in the files. -/
def chain (fs : FileSystem) (settings : Settings) : Command → Except Error Chain
  | convert input _ _ failure repair merge =>
    let options := (settings.withLabels failure repair).options
    (readAutomaton fs input >>= fun a => a.reduce { options with merge := options.merge || merge })
      |>.map (·.chain)
  | progress input _ format =>
    if format = .rateMatrix then .error .ratesOnly
    else (readAutomaton fs input >>= fun a => a.progress settings.options).map (·.chain)
  | report input _ =>
    (readAutomaton fs input >>= fun a => a.reduce settings.options).map (·.chain)

def outputs (settings : Settings) (chain : Chain) : Command → List Output
  | convert _ output format .. => outputsOf output settings.output chain format
  | progress _ output format => outputsOf output settings.output chain format
  | report .. => []

end Command

/-- A run that makes no chain changes nothing, and one that makes one writes all of its files or
    fails and leaves none that it began. -/
structure Outcome.Atomic (outcome : Outcome) (made : Except Error Chain)
    (outputs : Chain → List Output) (storage : Storage) (fs : FileSystem) : Prop where
  refused : ∀ fault, made = .error fault → outcome.files = fs ∧ outcome.fault = some fault
  written : ∀ chain, made = .ok chain →
    AllOrNothing (outputs chain) storage fs outcome.files outcome.fault

theorem failed_atomic (storage : Storage) (fs : FileSystem) (outputs : Chain → List Output)
    (fault : Error) :
    (Outcome.failed fs fault).Atomic (.error fault) outputs storage fs where
  refused _ h := ⟨rfl, congrArg some (Except.error.inj h)⟩
  written _ h := nomatch h

theorem transform_atomic (storage : Storage) (fs : FileSystem) (settings : Settings)
    (input output : String) (format : ModelFormat)
    (reduction : Automaton → ReductionOptions → Except Error Reduction) :
    (transform storage fs settings input output format reduction).Atomic
      ((readAutomaton fs input >>= fun a => reduction a settings.options).map (·.chain))
      (fun chain => outputsOf output settings.output chain format) storage fs := by
  unfold transform
  cases readAutomaton fs input >>= fun a => reduction a settings.options with
  | error fault => exact failed_atomic storage fs _ fault
  | ok reduced =>
    refine ⟨fun _ h => (nomatch h), fun chain h => ?_⟩
    obtain rfl : reduced.chain = chain := Except.ok.inj h
    exact writeChain_allOrNothing storage fs output format settings.output reduced.chain

theorem report_atomic (storage : Storage) (fs : FileSystem) (settings : Settings) (input : String)
    (format : ReportFormat) :
    (report fs settings input format).Atomic
      ((readAutomaton fs input >>= fun a => a.reduce settings.options).map (·.chain))
      (fun _ => []) storage fs := by
  unfold report
  cases readAutomaton fs input with
  | error fault => exact failed_atomic storage fs _ fault
  | ok a =>
    simp only [bind, Except.bind]
    cases a.reduce settings.options with
    | error fault => exact failed_atomic storage fs _ fault
    | ok reduced =>
      refine ⟨fun _ h => (nomatch h), fun _ _ => ⟨⟨fun _ _ hnone => ?_, fun _ => rfl⟩,
        fun _ _ hnone => ?_, fun h => absurd rfl h, .refl _ _⟩⟩
      · exact absurd hnone List.not_mem_nil
      · exact absurd hnone List.not_mem_nil

/-- Whatever the storage refuses, a command that cannot read or reduce its input changes nothing,
    and any other writes all of its files, or fails and leaves none that it began. -/
theorem Command.execute_atomic (storage : Storage) (fs : FileSystem) (settings : Settings)
    (command : Command) : (command.executeOn storage fs settings).Atomic
      (command.chain fs settings) (fun chain => command.outputs settings chain) storage fs := by
  cases command with
  | convert input output format failure repair merge =>
    let settings' := settings.withLabels failure repair
    exact transform_atomic storage fs { settings' with merge := settings'.merge || merge } input
      output format Automaton.reduce
  | progress input output format =>
    by_cases hformat : format = .rateMatrix
    · simp only [executeOn, chain, if_pos hformat]
      exact failed_atomic storage fs _ .ratesOnly
    · simp only [executeOn, chain, if_neg hformat]
      exact transform_atomic storage fs settings input output format Automaton.progress
  | report input format => exact report_atomic storage fs settings input format

/-- A directory stands where the labels are to go. -/
def blocked : FileSystem := .ofList
  [("a.aut", .file "des (0, 1, 1)\n(0, \"rate 2\", 0)\n".toUTF8), ("m.lab", .directory)]

example : ((Command.convert "a.aut" "m" .rateMatrix none none false).execute blocked {}).files.keys =
    [["a.aut"], ["m.lab"]] := by decide +kernel

end InteractiveMarkov
