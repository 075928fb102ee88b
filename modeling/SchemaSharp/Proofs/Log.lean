/-
What a run logs.

The log goes along with the descriptors: one event for each file, up to the first
descriptor that gets none (`log_ofDescriptors_append`). Before that it tells whether
the schema has the reserved enum, after it how many files there are. The events that
are no warnings so mirror the run (`debug_events_mirror_run`). A warning is the last
event of a run that fails at a rendering; a descriptor without a name, or with the name
of an earlier one, stops the run without a warning (`warns_unless_rejected`).
-/
import SchemaSharp.Proofs.Culprit

namespace SchemaSharp

/-- The event of a descriptor's file. -/
def Descriptor.event (d : Descriptor) : Event := .generated (d.name ++ ".cs") d.kind

/-- What is logged about the reserved enum. -/
def Schema.skipEvents (s : Schema) : List Event :=
  if ∃ e ∈ s.enums, e.name = "OPERATION" then [.skippedReserved] else []

/-- What is logged about a descriptor that gets no file: only a rendering that fails is
warned about. -/
def Descriptor.warnings (before : List Descriptor) (d : Descriptor) (e : GenerateError) :
    List Event :=
  if d.name = "" ∨ d.name ∈ before.map name then [] else [.failed d.name e]

namespace Run

variable {render : Descriptor → Except GenerateError String} {earlier : List String}
  {d : Descriptor} {ds : List Descriptor}

theorem log_ofDescriptors_cons {content : String} (hr : d.rejection? earlier = none)
    (hc : render d = .ok content) :
    (ofDescriptors render earlier (d :: ds)).log =
      d.event :: (ofDescriptors render (d.fileName :: earlier) ds).log := by
  rw [ofDescriptors, hr, hc, Descriptor.event, ← Descriptor.fileName_eq]
  rfl

/-- **The files written so far have their events, in their order**, whatever comes after
them. -/
theorem log_ofDescriptors_append {before : List Descriptor} {files : List SourceFile}
    (hb : (ofDescriptors render earlier before).result = .ok files) :
    (ofDescriptors render earlier (before ++ ds)).log = before.map Descriptor.event ++
      (ofDescriptors render ((before.map Descriptor.fileName).reverse ++ earlier) ds).log := by
  induction before generalizing earlier files with
  | nil => rfl
  | cons d before ih =>
    obtain ⟨hr, f, rest, _, hf, hrest⟩ := ofDescriptors_cons_eq_ok.mp hb
    rw [List.cons_append, log_ofDescriptors_cons (Descriptor.rejection?_eq_none.mpr hr) hf.2,
      ih hrest]
    simp

theorem log_ofDescriptors_of_ok {files : List SourceFile}
    (h : (ofDescriptors render earlier ds).result = .ok files) :
    (ofDescriptors render earlier ds).log = ds.map Descriptor.event := by
  rw [← List.append_nil ds, log_ofDescriptors_append h, ofDescriptors, List.append_nil,
    List.append_nil]

theorem log_ofDescriptors_of_fails {before : List Descriptor} {e : GenerateError}
    (hf : d.Fails render (before.map Descriptor.fileName).reverse e) :
    (ofDescriptors render (before.map Descriptor.fileName).reverse (d :: ds)).log =
      d.warnings before e := by
  rw [ofDescriptors, Descriptor.warnings]
  rcases hf with hr | ⟨hr, hc⟩
  · have hrejected := Descriptor.rejection?_eq_some.mp hr
    rw [Descriptor.mem_fileNames] at hrejected
    rw [hr, if_pos (by tauto)]
  · have hfree := Descriptor.rejection?_eq_none.mp hr
    rw [Descriptor.mem_fileNames] at hfree
    rw [hr, hc, if_neg (by tauto)]

theorem log_completed_of_ok {r : Run} {files : List SourceFile} (h : r.result = .ok files) :
    r.completed.log = r.log ++ [.complete files.length] := by
  rw [completed, h]

theorem log_completed_of_error {r : Run} {e : GenerateError} (h : r.result = .error e) :
    r.completed.log = r.log := by
  rw [completed, h]

end Run

section Schemas

variable {s : Schema} {options : Options}

theorem run_log_eq (s : Schema) (options : Options) : (run s options).log = s.skipEvents ++
    (Run.ofDescriptors (·.render (.ofSchema s) options) [] s.outputs).completed.log := by
  have hreserved : s.enums.any (·.isReserved) = true ↔ ∃ e ∈ s.enums, e.name = "OPERATION" :=
    List.any_eq_true.trans (exists_congr fun _ => and_congr_right fun _ => decide_eq_true_iff)
  unfold run Schema.skipEvents
  simp only [hreserved]
  split <;> rfl

theorem run_log_of_ok {files : List SourceFile} (h : generate s options = .ok files) :
    (run s options).log =
      s.skipEvents ++ s.outputs.map Descriptor.event ++ [.complete files.length] := by
  rw [generate_eq] at h
  rw [run_log_eq, Run.log_completed_of_ok h, Run.log_ofDescriptors_of_ok h, List.append_assoc]

theorem run_log_of_error {e : GenerateError} (h : generate s options = .error e)
    {before after : List Descriptor} {d : Descriptor}
    (hfirst : Descriptor.FirstBlocked (.ofSchema s) options s.outputs before d after) :
    (run s options).log = s.skipEvents ++ before.map Descriptor.event ++ d.warnings before e := by
  obtain ⟨files, hb⟩ := Run.exists_ofDescriptors_iff.mpr hfirst.free
  rw [generate_eq] at h
  have hfails : d.Fails (·.render (.ofSchema s) options) _ e :=
    Descriptor.fails_iff_culprit.mpr ((Run.eq_error_iff_of_firstBlocked hfirst).mp h)
  rw [run_log_eq, Run.log_completed_of_error h, hfirst.split, Run.log_ofDescriptors_append hb,
    List.append_nil, Run.log_ofDescriptors_of_fails hfails, List.append_assoc]

theorem mem_events {ds : List Descriptor} {event : Event}
    (h : event ∈ s.skipEvents ++ ds.map Descriptor.event) :
    event = .skippedReserved ∨ ∃ d ∈ ds, event = d.event := by
  rcases List.mem_append.mp h with h | h
  · unfold Schema.skipEvents at h
    split at h
    next => exact .inl (List.mem_singleton.mp h)
    next => cases h
  · obtain ⟨d, hd, rfl⟩ := List.mem_map.mp h
    exact .inr ⟨d, hd, rfl⟩

theorem level_of_mem_events {ds : List Descriptor} {event : Event}
    (h : event ∈ s.skipEvents ++ ds.map Descriptor.event) : event.level = .debug := by
  rcases mem_events h with rfl | ⟨d, _, rfl⟩ <;> rfl

theorem Descriptor.mem_warnings {before : List Descriptor} {d : Descriptor} {e : GenerateError}
    {event : Event} (h : event ∈ d.warnings before e) : event = .failed d.name e := by
  unfold warnings at h
  split at h
  next => cases h
  next => exact List.mem_singleton.mp h

end Schemas

namespace Run

/-- A run that warns of nothing. -/
def Silent (r : Run) : Prop := ∀ event ∈ r.log, event.level = .debug

/-- A run that warns of one thing, an error at a descriptor, and logs nothing after it. -/
def WarnsLast (r : Run) (descriptor : String) (e : GenerateError) : Prop :=
  ∃ events, r.log = events ++ [.failed descriptor e] ∧ ∀ event ∈ events, event.level = .debug

theorem WarnsLast.not_silent {r : Run} {descriptor : String} {e : GenerateError}
    (h : r.WarnsLast descriptor e) : ¬r.Silent := by
  obtain ⟨events, hlog, _⟩ := h
  intro hs
  have hlevel := hs (.failed descriptor e) (by simp [hlog])
  cases hlevel

end Run

theorem silent_of_ok {s : Schema} {options : Options} {files : List SourceFile}
    (h : generate s options = .ok files) : (run s options).Silent := by
  intro event hevent
  rw [run_log_of_ok h] at hevent
  rcases List.mem_append.mp hevent with hevent | hevent
  · exact level_of_mem_events hevent
  · obtain rfl := List.mem_singleton.mp hevent
    rfl

/-- **Who is warned of.** A run that goes well warns of nothing. A run that fails warns
of the descriptor it fails at, with the error and as the last thing, if and only if this
descriptor has a name that no earlier one has; otherwise it warns of nothing. -/
theorem warns_unless_rejected (s : Schema) (options : Options) :
    (∀ files, generate s options = .ok files → (run s options).Silent) ∧
    ∀ e, generate s options = .error e →
      (∃ before d after,
        Descriptor.FirstBlocked (.ofSchema s) options s.outputs before d after) ∧
      ∀ before d after, Descriptor.FirstBlocked (.ofSchema s) options s.outputs before d after →
        ((run s options).WarnsLast d.name e ↔
          d.name ≠ "" ∧ d.name ∉ before.map Descriptor.name) ∧
        ((run s options).Silent ↔ d.name = "" ∨ d.name ∈ before.map Descriptor.name) := by
  refine ⟨fun files h => silent_of_ok h, fun e h => ⟨?_, fun before d after hfirst => ?_⟩⟩
  · exact Run.exists_firstBlocked (generate_eq s options ▸ h)
  · have hlog := run_log_of_error h hfirst
    unfold Descriptor.warnings at hlog
    by_cases hd : d.name = "" ∨ d.name ∈ before.map Descriptor.name
    · rw [if_pos hd, List.append_nil] at hlog
      have hsilent : (run s options).Silent := fun event hevent =>
        level_of_mem_events (hlog ▸ hevent)
      exact ⟨iff_of_false (fun hw => hw.not_silent hsilent) (by tauto), iff_of_true hsilent hd⟩
    · rw [if_neg hd] at hlog
      have hwarns : (run s options).WarnsLast d.name e :=
        ⟨_, hlog, fun event hevent => level_of_mem_events hevent⟩
      exact ⟨iff_of_true hwarns (by tauto), iff_of_false hwarns.not_silent hd⟩

/-- A class, and two interfaces of one name. -/
def pingSchema : Schema where
  classes := [⟨"Peer", "Schema", []⟩]
  interfaces := [⟨"Ping", []⟩, ⟨"Ping", []⟩]

/-- A class, and an interface with a type that is not declared. -/
def pongSchema : Schema where
  classes := [⟨"Peer", "Schema", []⟩]
  interfaces := [⟨"Pong", [{ name := "at", type := "time" }]⟩]

theorem pongSchema_firstBlocked :
    Descriptor.FirstBlocked (.ofSchema pongSchema) {} pongSchema.outputs
      [.ofClass ⟨"Peer", "Schema", []⟩]
      (.ofInterface ⟨"Pong", [{ name := "at", type := "time" }]⟩) [] :=
  ⟨rfl, Run.exists_ofDescriptors_iff.mp ⟨_, rfl⟩, .inr (.inr ⟨_, rfl⟩)⟩

/-- The type is warned of, the repeated name is not. -/
theorem warns_unless_rejected_ping :
    generate pingSchema {} = .error (.duplicateOutput "Ping.cs" "interface" "Ping") ∧
    (run pingSchema {}).Silent ∧
    generate pongSchema {} = .error (.unresolvedType "Pong" "at" "time") ∧
    (run pongSchema {}).WarnsLast "Pong" (.unresolvedType "Pong" "at" "time") := by
  have hping : generate pingSchema {} =
      .error (.duplicateOutput "Ping.cs" "interface" "Ping") := by rfl
  have hpong : generate pongSchema {} = .error (.unresolvedType "Pong" "at" "time") := by rfl
  have hrepeated : Descriptor.FirstBlocked (.ofSchema pingSchema) {} pingSchema.outputs
      [.ofClass ⟨"Peer", "Schema", []⟩, .ofInterface ⟨"Ping", []⟩] (.ofInterface ⟨"Ping", []⟩) [] :=
    ⟨rfl, Run.exists_ofDescriptors_iff.mp ⟨_, rfl⟩, .inr (.inl (by decide))⟩
  refine ⟨hping, ?_, hpong, ?_⟩
  · exact (((warns_unless_rejected pingSchema {}).2 _ hping).2 _ _ _ hrepeated).2.mpr
      (.inr (by decide))
  · exact (((warns_unless_rejected pongSchema {}).2 _ hpong).2 _ _ _
      pongSchema_firstBlocked).1.mpr (by decide)

/-- A run can fail without a warning. -/
theorem failure_can_be_silent :
    ¬ ∀ (s : Schema) (options : Options) (e : GenerateError), generate s options = .error e →
      ∃ descriptor, (run s options).WarnsLast descriptor e := by
  intro h
  obtain ⟨_, hw⟩ := h pingSchema {} (.duplicateOutput "Ping.cs" "interface" "Ping") rfl
  refine hw.not_silent ?_
  unfold Run.Silent
  decide

/-- The events of a run that are no warnings. -/
def Run.debugEvents (r : Run) : List Event := r.log.filter (·.level = .debug)

section Mirror

variable {s : Schema} {options : Options}

theorem debugEvents_of_ok {files : List SourceFile} (h : generate s options = .ok files) :
    (run s options).debugEvents =
      s.skipEvents ++ s.outputs.map Descriptor.event ++ [.complete files.length] := by
  rw [← run_log_of_ok h]
  exact List.filter_eq_self.mpr fun event hevent => decide_eq_true (silent_of_ok h event hevent)

theorem debugEvents_of_error {e : GenerateError} (h : generate s options = .error e)
    {before after : List Descriptor} {d : Descriptor}
    (hfirst : Descriptor.FirstBlocked (.ofSchema s) options s.outputs before d after) :
    (run s options).debugEvents = s.skipEvents ++ before.map Descriptor.event := by
  have hwarnings : (d.warnings before e).filter (·.level = .debug) = [] := by
    refine List.filter_eq_nil_iff.mpr fun event hevent => ?_
    obtain rfl := Descriptor.mem_warnings hevent
    simp [Event.level]
  rw [Run.debugEvents, run_log_of_error h hfirst, List.filter_append, hwarnings, List.append_nil]
  exact List.filter_eq_self.mpr fun event hevent => decide_eq_true (level_of_mem_events hevent)

/-- Where an event of a run comes from. -/
theorem mem_run_log {event : Event} (h : event ∈ (run s options).log) :
    event = .skippedReserved ∨ (∃ d ∈ s.outputs, event = d.event) ∨
      (∃ name e, event = .failed name e) ∨
      ∃ files, generate s options = .ok files ∧ event = .complete files.length := by
  cases hg : generate s options with
  | ok files =>
    rw [run_log_of_ok hg] at h
    rcases List.mem_append.mp h with h | h
    · exact (mem_events h).imp_right .inl
    · exact .inr (.inr (.inr ⟨files, rfl, List.mem_singleton.mp h⟩))
  | error e =>
    obtain ⟨before, d, after, hfirst⟩ := Run.exists_firstBlocked (generate_eq s options ▸ hg)
    rw [run_log_of_error hg hfirst] at h
    rcases List.mem_append.mp h with h | h
    · refine (mem_events h).imp_right fun ⟨d', hd', he⟩ => .inl ⟨d', ?_, he⟩
      rw [hfirst.split]
      exact List.mem_append_left _ hd'
    · exact .inr (.inr (.inl ⟨_, _, Descriptor.mem_warnings h⟩))

/-- The end of a run is logged exactly if the run gets there. -/
theorem complete_mem_run_log {n : Nat} : .complete n ∈ (run s options).log ↔
    ∃ files, generate s options = .ok files ∧ files.length = n := by
  refine ⟨fun h => ?_, fun h => ?_⟩
  · rcases mem_run_log h with h | ⟨d, _, h⟩ | ⟨_, _, h⟩ | ⟨files, hg, h⟩
    · cases h
    · cases h
    · cases h
    · exact ⟨files, hg, (Event.complete.inj h).symm⟩
  · obtain ⟨files, hg, rfl⟩ := h
    simp [run_log_of_ok hg]

theorem reserved_event_not_mem {en : EnumDecl} (hn : en.name = "OPERATION") :
    (Descriptor.ofEnum en).event ∉ (run s options).log := by
  intro h
  rcases mem_run_log h with h | ⟨d, hd, h⟩ | ⟨_, _, h⟩ | ⟨_, _, h⟩
  · cases h
  · obtain ⟨hfile, hkind⟩ := Event.generated.inj h
    have hname : en.name = d.name := (String.append_left_inj _).mp hfile
    cases d with
    | ofClass c => simp [Descriptor.kind] at hkind
    | ofInterface i => simp [Descriptor.kind] at hkind
    | ofEnum e =>
      have he : e ∈ s.userEnums := by
        simpa [Schema.outputs] using hd
      rw [Schema.userEnums_eq] at he
      have hne : e.name ≠ "OPERATION" := by simpa using (List.mem_filter.mp he).2
      exact hne (hname.symm.trans hn)
  · cases h
  · cases h

end Mirror

/-- **The other events mirror the run.** If the schema has the reserved enum, this is
told first. Then come the files: those of all descriptors if the run goes well, and
those of the descriptors before the first blocked one if it fails. At the end a run that
goes well, and no other one, tells how many files there are. No file of the reserved enum
is among them. -/
theorem debug_events_mirror_run (s : Schema) (options : Options) :
    (∀ files, generate s options = .ok files →
      (run s options).debugEvents = (if ∃ e ∈ s.enums, e.name = "OPERATION" then
        [.skippedReserved] else []) ++ s.outputs.map Descriptor.event ++ [.complete files.length] ∧
      (run s options).log.getLast? = some (.complete files.length)) ∧
    (∀ e, generate s options = .error e →
      (∃ before d after,
        Descriptor.FirstBlocked (.ofSchema s) options s.outputs before d after) ∧
      ∀ before d after, Descriptor.FirstBlocked (.ofSchema s) options s.outputs before d after →
        (run s options).debugEvents = (if ∃ e ∈ s.enums, e.name = "OPERATION" then
          [.skippedReserved] else []) ++ before.map Descriptor.event) ∧
    (∀ n, .complete n ∈ (run s options).log ↔
      ∃ files, generate s options = .ok files ∧ files.length = n) ∧
    ∀ e : EnumDecl, e.name = "OPERATION" → (Descriptor.ofEnum e).event ∉ (run s options).log := by
  refine ⟨fun files h => ⟨debugEvents_of_ok h, ?_⟩, fun e h => ⟨?_, ?_⟩, ?_, ?_⟩
  · rw [run_log_of_ok h]
    exact List.getLast?_concat
  · exact Run.exists_firstBlocked (generate_eq s options ▸ h)
  · exact fun before d after hfirst => debugEvents_of_error h hfirst
  · exact fun n => complete_mem_run_log
  · exact fun e hn => reserved_event_not_mem hn

/-- The reserved enum twice, among others. -/
def patchSchema : Schema where
  classes := [⟨"OPERATION", "Schema", []⟩]
  interfaces := [⟨"Patch", [{ name := "op", type := "OPERATION" }]⟩]
  enums := [⟨"OPERATION", .enumeration, [⟨"Add", .integer 128⟩]⟩, ⟨"Mode", .constantGroup, []⟩,
    ⟨"OPERATION", .constantGroup, []⟩]

/-- A class may have the name of the reserved enum; it then has a file. -/
theorem debug_events_mirror_run_patch :
    (∃ files, generate patchSchema {} = .ok files ∧ files.length = 3) ∧
    (run patchSchema {}).debugEvents = [.skippedReserved, .generated "OPERATION.cs" "class",
      .generated "Patch.cs" "interface", .generated "Mode.cs" "enum", .complete 3] ∧
    generate pongSchema {} = .error (.unresolvedType "Pong" "at" "time") ∧
    (run pongSchema {}).debugEvents = [.generated "Peer.cs" "class"] := by
  have hpatch : ∃ files, generate patchSchema {} = .ok files ∧ files.length = 3 := ⟨_, rfl, rfl⟩
  have hpong : generate pongSchema {} = .error (.unresolvedType "Pong" "at" "time") := by rfl
  refine ⟨hpatch, ?_, hpong, ?_⟩
  · obtain ⟨files, h, hlen⟩ := hpatch
    rw [((debug_events_mirror_run patchSchema {}).1 files h).1, hlen]
    decide
  · rw [((debug_events_mirror_run pongSchema {}).2.1 _ hpong).2 _ _ _ pongSchema_firstBlocked]
    decide

end SchemaSharp
