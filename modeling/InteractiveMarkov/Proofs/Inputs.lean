import InteractiveMarkov.Proofs.Outputs

set_option autoImplicit false

namespace InteractiveMarkov

open FileSystem

def Command.input : Command → String
  | convert input .. => input
  | progress input .. => input
  | report input _ => input

/-- The output is reached when outputs are written one after the other up to the first failure. -/
inductive Begun (storage : Storage) (fs : FileSystem) : List Output → Output → Prop
  | here {output : Output} {rest : List Output} : Begun storage fs (output :: rest) output
  | later {first output : Output} {rest : List Output} (haccepted : first.Accepted storage fs)
      (h : Begun storage fs rest output) : Begun storage fs (first :: rest) output

def BegunAt (storage : Storage) (fs : FileSystem) (outputs : List Output) (location : Location) :
    Prop :=
  ∃ output, Begun storage fs outputs output ∧ fs.writable output.path = .ok location

/-- The command makes a chain of its input, and an output that it begins goes to the place of the
    input. -/
def Command.Overwrites (storage : Storage) (fs : FileSystem) (settings : Settings)
    (command : Command) : Prop :=
  ∃ chain, command.chain fs settings = .ok chain ∧ ∃ location,
    BegunAt storage fs (command.outputs settings chain) location ∧
      fs.locate command.input = .ok location

/-- The storage may refuse to write a file, but not to create or to remove it. -/
def Storage.Yields (storage : Storage) : Prop :=
  ∀ path, storage.creating path = none ∧ storage.removing path = none

/-- What the places of outputs hold after an attempt to write them one after the other. -/
structure Leaves (outputs : List Output) (storage : Storage) (fs after : FileSystem)
    (fault : Option Error) : Prop where
  touches : Touches (outputs.map Output.path) fs after
  untouched : ∀ location, ¬ BegunAt storage fs outputs location → after[location]? = fs[location]?
  cleared : storage.Yields → fault ≠ none → ∀ location, BegunAt storage fs outputs location →
    after[location]? = none

variable {storage : Storage} {fs after : FileSystem} {settings : Settings} {command : Command}
  {first second : Output} {location place : Location} {contents : ByteArray} {path : String}
  {writer : Stream → Except Error Stream}

theorem begunAt_single : BegunAt storage fs [first] location ↔
    fs.writable first.path = .ok location := by
  constructor
  · rintro ⟨output, hbegun, hwritable⟩
    cases hbegun with
    | here => exact hwritable
    | later _ hnone => nomatch hnone
  · exact fun hwritable => ⟨first, .here, hwritable⟩

theorem begunAt_pair (haccepted : first.Accepted storage fs) :
    BegunAt storage fs [first, second] location ↔
      fs.writable first.path = .ok location ∨ fs.writable second.path = .ok location := by
  constructor
  · rintro ⟨output, hbegun, hwritable⟩
    cases hbegun with
    | here => exact .inl hwritable
    | later _ hrest => exact .inr (begunAt_single.1 ⟨output, hrest, hwritable⟩)
  · rintro (hwritable | hwritable)
    · exact ⟨first, .here, hwritable⟩
    · exact ⟨second, .later haccepted .here, hwritable⟩

theorem begunAt_refused (hrefused : ¬ first.Accepted storage fs) :
    BegunAt storage fs [first, second] location ↔ BegunAt storage fs [first] location := by
  rw [begunAt_single]
  constructor
  · rintro ⟨output, hbegun, hwritable⟩
    cases hbegun with
    | here => exact hwritable
    | later haccepted _ => exact absurd haccepted hrefused
  · exact fun hwritable => ⟨first, .here, hwritable⟩

theorem locate_of_writable (h : fs.writable path = .ok location) :
    fs.locate path = .ok location :=
  (writable_eq_ok.1 h).1

theorem getElem?_of_touches (h : Touches [path] fs after) (hwritable : fs.writable path = .ok place)
    (hne : place ≠ location) : after[location]? = fs[location]? := by
  refine h.elsewhere location fun found hfound hlocate => hne ?_
  rw [List.mem_singleton.1 hfound, locate_of_writable hwritable] at hlocate
  exact Except.ok.inj hlocate

theorem getElem?_of_gone (hwritable : fs.writable path = .ok location)
    (hgone : fs.entryAt path = none) : fs[location]? = none := by
  obtain ⟨hlocate, hdirectory, hslash⟩ := writable_eq_ok.1 hwritable
  rw [entryAt_of_locate hlocate, hdirectory, hslash] at hgone
  simpa using hgone

theorem writable_of_file (h : fs.entryAt path = some (.file contents)) :
    ∃ location, fs.writable path = .ok location := by
  obtain ⟨location, hlocate, hdirectory⟩ := located_of_file h
  refine ⟨location, writable_eq_ok.2 ⟨hlocate, hdirectory, ?_⟩⟩
  rw [entryAt_of_locate hlocate, hdirectory] at h
  cases hslash : Path.endsInSlash path with
  | false => rfl
  | true => simp [hslash] at h

theorem writable_of_remove (h : fs.remove path = .ok after) :
    ∃ location, fs.writable path = .ok location := by
  cases hentry : fs.entryAt path with
  | none => exact absurd h (remove_nothing hentry)
  | some entry =>
    cases entry with
    | directory =>
      rw [remove_directory hentry] at h
      cases h
    | file contents => exact writable_of_file hentry

theorem discard_unwritable (h : ∀ location, fs.writable path ≠ .ok location) :
    (discard storage fs path).1 = fs := by
  unfold discard
  split
  · split
    · rename_i hremove
      obtain ⟨location, hwritable⟩ := writable_of_remove (Storage.remove_ok hremove)
      exact absurd hwritable (h location)
    · rfl
  · rfl

theorem writeFile_unwritable (h : ∀ location, fs.writable path ≠ .ok location) :
    (writeFile storage fs path writer).files = fs := by
  unfold writeFile
  split
  · exact discard_unwritable h
  · rename_i hcreate
    exact absurd (Storage.create_ok hcreate).2.1 (h _)

theorem discard_file (hyields : storage.Yields)
    (hfile : fs.entryAt path = some (.file contents)) :
    (discard storage fs path).1.entryAt path = none := by
  rcases discard_clean (hyields path).2 with hgone | ⟨-, hdirectory⟩
  · exact hgone
  · rw [hfile] at hdirectory
    cases hdirectory

theorem writeFile_gone (hyields : storage.Yields) (hwritable : fs.writable path = .ok location)
    (hfault : (writeFile storage fs path writer).fault ≠ none) :
    (writeFile storage fs path writer).files.entryAt path = none := by
  revert hfault
  unfold writeFile
  split
  · rename_i hcreate
    rw [Storage.create, (hyields path).1, create_of_writable hwritable] at hcreate
    cases hcreate
  · rename_i made place hcreate
    obtain ⟨-, hplace, rfl⟩ := Storage.create_ok hcreate
    split
    · intro _
      have hagain := (touches_insert hplace ByteArray.empty).1.writable_iff.2 hplace
      exact discard_file hyields (touches_insert hagain (storage.left path)).2
    · exact fun hnone => absurd rfl hnone

theorem writeFile_leaves (storage : Storage) (fs : FileSystem) (path : String)
    (writer : Stream → Except Error Stream) :
    Leaves [⟨path, writer⟩] storage fs (writeFile storage fs path writer).files
      (writeFile storage fs path writer).fault := by
  have htouches := (writeFile_allOrNothing storage fs path writer).touches
  refine ⟨htouches, fun location hnot => ?_, fun hyields hfault location hbegun => ?_⟩
  · rw [begunAt_single] at hnot
    by_cases hwritable : ∃ place, fs.writable path = .ok place
    · obtain ⟨place, hplace⟩ := hwritable
      exact getElem?_of_touches htouches hplace fun heq => hnot (heq ▸ hplace)
    · rw [writeFile_unwritable (not_exists.1 hwritable)]
  · have hwritable := begunAt_single.1 hbegun
    exact getElem?_of_gone (htouches.writable_iff.2 hwritable)
      (writeFile_gone hyields hwritable hfault)

section Pair

variable {made whole : FileSystem} {fault : Option Error}

theorem Leaves.pair (hfirst : AllOrNothing [first] storage fs made none)
    (hsecond : AllOrNothing [second] storage made whole fault)
    (hleaves : Leaves [second] storage made whole fault)
    (hapart : ∀ location, fs.locate first.path = .ok location →
      fs.locate second.path ≠ .ok location)
    (hafter : after = if fault = none then whole else (discard storage whole first.path).1) :
    Leaves [first, second] storage fs after fault := by
  have haccepted := hfirst.succeeds.1 rfl first List.mem_cons_self
  obtain ⟨place, hplace⟩ := haccepted.writable
  have hagain : whole.writable first.path = .ok place :=
    (hfirst.both_touched hsecond).writable_iff.2 hplace
  have hdiscard := touches_discard storage whole first.path
  refine ⟨(hfirst.pair hsecond hapart hafter).touches, fun location hnot => ?_,
    fun hyields hfault location hbegun => ?_⟩
  · rw [begunAt_pair haccepted, not_or] at hnot
    have hne : place ≠ location := fun heq => hnot.1 (heq ▸ hplace)
    have hwhole : whole[location]? = fs[location]? := by
      rw [hleaves.untouched, getElem?_of_touches hfirst.touches hplace hne]
      rw [begunAt_single, hfirst.touches.writable_iff]
      exact hnot.2
    rw [hafter]
    split
    · exact hwhole
    · rw [getElem?_of_touches hdiscard hagain hne, hwhole]
  · rw [if_neg hfault] at hafter
    subst hafter
    -- the first file is removed again, and the second one stands elsewhere
    rcases (begunAt_pair haccepted).1 hbegun with hwritable | hwritable
    · obtain ⟨stream, -, hfile⟩ := hfirst.first_stays hsecond hapart
      obtain rfl : place = location := Except.ok.inj (hplace.symm.trans hwritable)
      exact getElem?_of_gone (hdiscard.writable_iff.2 hagain) (discard_file hyields hfile)
    · have hne : place ≠ location := by
        rintro rfl
        exact hapart place (locate_of_writable hplace) (locate_of_writable hwritable)
      rw [getElem?_of_touches hdiscard hagain hne]
      exact hleaves.cleared hyields hfault location
        (begunAt_single.2 (hfirst.touches.writable_iff.2 hwritable))

theorem Leaves.alone {e : Error} (h : AllOrNothing [first] storage fs after (some e))
    (hleaves : Leaves [first] storage fs after (some e)) :
    Leaves [first, second] storage fs after (some e) := by
  have hrefused : ¬ first.Accepted storage fs := fun haccepted =>
    nomatch h.succeeds.2 (List.forall_mem_singleton.2 haccepted)
  refine ⟨h.touches.mono List.mem_cons_self, fun location hnot => hleaves.untouched location ?_,
    fun hyields hfault location hbegun =>
      hleaves.cleared hyields hfault location ((begunAt_refused hrefused).1 hbegun)⟩
  rwa [← begunAt_refused hrefused]

end Pair

theorem writePair_leaves (storage : Storage) (fs : FileSystem) (output : String)
    (settings : OutputSettings) (chain : Chain) :
    Leaves (outputsOf output settings chain .rateMatrix) storage fs
      (writePair storage fs output chain).files (writePair storage fs output chain).fault := by
  have hapart := matrix_apart_labels fs output
  have hfirst := writeFile_allOrNothing storage fs (matrixPath output) fun stream =>
    (RateMatrix.write chain stream).map (·.1)
  have hleft := writeFile_leaves storage fs (matrixPath output) fun stream =>
    (RateMatrix.write chain stream).map (·.1)
  unfold writePair
  generalize writeFile storage fs (matrixPath output) _ = first at hfirst hleft ⊢
  obtain ⟨made, notices, fault⟩ := first
  cases fault with
  | some e => exact hleft.alone hfirst
  | none =>
    have hsecond := writeFile_allOrNothing storage made (labelsPath output)
      (RateMatrix.writeLabels chain)
    have hleaves := writeFile_leaves storage made (labelsPath output)
      (RateMatrix.writeLabels chain)
    simp only
    generalize writeFile storage made (labelsPath output) _ = second at hsecond hleaves ⊢
    obtain ⟨whole, notices', fault'⟩ := second
    cases fault' with
    | none => exact hleaves.pair hfirst hsecond hapart rfl
    | some e => exact hleaves.pair hfirst hsecond hapart rfl

theorem writeChain_leaves (storage : Storage) (fs : FileSystem) (output : String)
    (format : ModelFormat) (settings : OutputSettings) (chain : Chain) :
    Leaves (outputsOf output settings chain format) storage fs
      (writeChain storage fs output format settings chain).files
      (writeChain storage fs output format settings chain).fault := by
  cases format with
  | aldebaran => exact writeFile_leaves storage fs output _
  | jani => exact writeFile_leaves storage fs output _
  | rateMatrix => exact writePair_leaves storage fs output settings chain

theorem transform_leaves (storage : Storage) (fs : FileSystem) (settings : Settings)
    (input output : String) (format : ModelFormat)
    (reduction : Automaton → ReductionOptions → Except Error Reduction) {chain : Chain}
    (h : (readAutomaton fs input >>= fun a => reduction a settings.options).map (·.chain) =
      .ok chain) :
    Leaves (outputsOf output settings.output chain format) storage fs
      (transform storage fs settings input output format reduction).files
      (transform storage fs settings input output format reduction).fault := by
  unfold transform
  cases hreduced : readAutomaton fs input >>= fun a => reduction a settings.options with
  | error fault =>
    rw [hreduced] at h
    cases h
  | ok reduced =>
    rw [hreduced] at h
    cases h
    exact writeChain_leaves storage fs output format settings.output reduced.chain

theorem report_files (fs : FileSystem) (settings : Settings) (input : String)
    (format : ReportFormat) : (report fs settings input format).files = fs := by
  unfold report
  dsimp only
  split <;> rfl

theorem report_leaves (storage : Storage) (fs : FileSystem) (settings : Settings) (input : String)
    (format : ReportFormat) :
    Leaves [] storage fs (report fs settings input format).files
      (report fs settings input format).fault := by
  rw [report_files]
  exact ⟨.refl _ _, fun _ _ => rfl, fun _ _ _ ⟨_, hbegun, _⟩ => nomatch hbegun⟩

theorem Command.files_of_refused {fault : Error} (h : command.chain fs settings = .error fault) :
    (command.executeOn storage fs settings).files = fs := by
  cases command with
  | convert input output format failure repair merge =>
    let settings' := settings.withLabels failure repair
    exact ((transform_atomic storage fs { settings' with merge := settings'.merge || merge } input
      output format Automaton.reduce).refused fault h).1
  | progress input output format =>
    by_cases hformat : format = .rateMatrix
    · simp only [executeOn, if_pos hformat]
      rfl
    · rw [Command.chain, if_neg hformat] at h
      simp only [executeOn, if_neg hformat]
      exact ((transform_atomic storage fs settings input output format Automaton.progress).refused
        fault h).1
  | report input format => exact report_files fs settings input format

theorem Command.execute_leaves (storage : Storage) {chain : Chain}
    (h : command.chain fs settings = .ok chain) :
    Leaves (command.outputs settings chain) storage fs
      (command.executeOn storage fs settings).files
      (command.executeOn storage fs settings).fault := by
  cases command with
  | convert input output format failure repair merge =>
    let settings' := settings.withLabels failure repair
    exact transform_leaves storage fs { settings' with merge := settings'.merge || merge } input
      output format Automaton.reduce h
  | progress input output format =>
    by_cases hformat : format = .rateMatrix
    · rw [Command.chain, if_pos hformat] at h
      cases h
    · rw [Command.chain, if_neg hformat] at h
      simp only [executeOn, if_neg hformat]
      exact transform_leaves storage fs settings input output format Automaton.progress h
  | report input format => exact report_leaves storage fs settings input format

/-- The file that a command reads stays as it was unless the run begins an output in its place,
    whatever the storage refuses. If the storage only refuses to write, a run that fails costs the
    input in just this case. -/
theorem Command.input_stays (hinput : fs.read command.input = .ok contents) :
    (¬ command.Overwrites storage fs settings →
      (command.executeOn storage fs settings).files.read command.input = .ok contents) ∧
    (storage.Yields → (command.executeOn storage fs settings).fault ≠ none →
      ((command.executeOn storage fs settings).files.read command.input = .ok contents ↔
        ¬ command.Overwrites storage fs settings)) := by
  have hstays : ¬ command.Overwrites storage fs settings →
      (command.executeOn storage fs settings).files.read command.input = .ok contents := by
    intro hnot
    cases hchain : command.chain fs settings with
    | error fault => rw [Command.files_of_refused hchain, hinput]
    | ok chain =>
      have hleaves := Command.execute_leaves storage hchain
      rw [read_eq_ok] at hinput ⊢
      rw [hleaves.touches.entryAt_eq, hinput]
      exact fun location hlocate => hleaves.untouched location
        fun hbegun => hnot ⟨chain, hchain, location, hbegun, hlocate⟩
  refine ⟨hstays, fun hyields hfault => ⟨fun hread hover => ?_, hstays⟩⟩
  obtain ⟨chain, hchain, location, hbegun, hlocate⟩ := hover
  have hleaves := Command.execute_leaves storage hchain
  have hnone := hleaves.cleared hyields hfault location hbegun
  rw [read_eq_ok, entryAt_of_locate ((hleaves.touches.locate_iff _ _).2 hlocate), hnone] at hread
  split at hread <;> simp at hread

def delayText : String := "des (0, 1, 1)\n(0, \"time 1\", 0)\n"

def delayFiles : FileSystem := .ofList [("a.aut", .file delayText.toUTF8)]

def toJani (output : String) : Command := .convert "a.aut" output .jani none none false

theorem input_stays_apart : delayFiles.read "a.aut" = .ok delayText.toUTF8 ∧
    ((toJani "b.jani").execute delayFiles {}).fault = some (.unsupportedLabel .jani "time 1") ∧
    ((toJani "b.jani").execute delayFiles {}).files.read "a.aut" = .ok delayText.toUTF8 := by
  have hinput : delayFiles.read (toJani "b.jani").input = .ok delayText.toUTF8 := by decide +kernel
  have hapart : ¬ (toJani "b.jani").Overwrites .sound delayFiles {} := by
    rintro ⟨chain, -, location, hbegun, hlocate⟩
    have hwritable : delayFiles.writable "b.jani" = .ok location := begunAt_single.1 hbegun
    have hplace : delayFiles.writable "b.jani" = .ok ["b.jani"] := by decide +kernel
    have hsource : delayFiles.locate (toJani "b.jani").input = .ok ["a.aut"] := by decide +kernel
    obtain rfl := Except.ok.inj (hwritable.symm.trans hplace)
    exact absurd (Except.ok.inj (hlocate.symm.trans hsource)) (by decide)
  exact ⟨hinput, by decide +kernel, (Command.input_stays hinput).1 hapart⟩

/-- The output is sent to the place of the input, and is removed when it cannot be written. -/
theorem input_lost_in_place : delayFiles.read "a.aut" = .ok delayText.toUTF8 ∧
    ((toJani "a.aut").execute delayFiles {}).fault = some (.unsupportedLabel .jani "time 1") ∧
    ((toJani "a.aut").execute delayFiles {}).files.read "a.aut" = .error .notFound := by
  decide +kernel

end InteractiveMarkov
