import NoteQuery.Note.Load
import NoteQuery.Proofs.Outcome.Logged
import NoteQuery.Proofs.Outcome.Yields

/-! Loading many notes. A note that cannot be read is left out, and the others give the rows that they give
alone; but the first note whose frontmatter is well formed and holds a value out of range ends the
loading of all of them. -/

namespace NoteQuery.Note
set_option autoImplicit false

/-! ### One note -/

namespace Source

/-- The row of a note, or why there is none. -/
def row (s : Source) : Except Fault Row :=
  match s.node with
  | .directory _ => .error (.directory s.path)
  | .file bytes times =>
    match Text.readUtf8 bytes with
    | .error f => .error (.undecodable f)
    | .ok cs =>
      let parts := splitFrontmatter (Text.unifyLineEnds cs)
      match readFields parts.1 with
      | .error f => .error (.frontmatter f)
      | .ok fields? => .ok (rowOf s.relative times bytes.length (fields?.getD []) parts.2)

/-- A note is text and its frontmatter is a document, of which some value is out of range. -/
def Breaks (s : Source) (f : Yaml.Fault) : Prop :=
  f ≠ .malformed ∧ ∃ bytes times cs, s.node = .file bytes times ∧ Text.readUtf8 bytes = .ok cs ∧
    readFields (splitFrontmatter (Text.unifyLineEnds cs)).1 = .error f

theorem row_of_breaks {s : Source} {f : Yaml.Fault} (h : s.Breaks f) :
    s.row = .error (.frontmatter f) := by
  obtain ⟨-, bytes, times, cs, hnode, hcs, hfields⟩ := h
  simp only [row, hnode, hcs, hfields]

/-- Only frontmatter out of range is a fault that is not passed over. -/
theorem isSkipped_of_row {s : Source} {f : Fault} (hs : ∀ g, ¬s.Breaks g) (h : s.row = .error f) :
    f.isSkipped = true := by
  unfold row at h
  split at h
  · cases h
    rfl
  · next bytes times hnode =>
    split at h
    · cases h
      rfl
    · next cs hcs =>
      dsimp only at h
      split at h
      · next g hfields =>
        cases h
        by_cases hg : g = .malformed
        · rw [hg]
          rfl
        · exact absurd ⟨hg, bytes, times, cs, hnode, hcs, hfields⟩ (hs g)
      · cases h

/-- The row of a note, or none where the note is left out. -/
def row? (s : Source) : Except Fault (Option Row) :=
  match s.row with
  | .ok row => .ok (some row)
  | .error f => if f.isSkipped then .ok none else .error f

theorem row?_eq {s : Source} (hs : ∀ f, ¬s.Breaks f) : s.row? = .ok s.row.toOption := by
  unfold row?
  cases hrow : s.row with
  | ok row => rfl
  | error f => exact if_pos (isSkipped_of_row hs hrow)

theorem row?_of_breaks {s : Source} {f : Yaml.Fault} (h : s.Breaks f) :
    s.row? = .error (.frontmatter f) := by
  have hkept : ¬(Fault.frontmatter f).isSkipped := by simpa [Fault.isSkipped] using h.1
  rw [row?, row_of_breaks h]
  exact if_neg hkept

end Source

theorem comesTo_load (s : Source) : (load s).ComesTo s.row := by
  cases hnode : s.node with
  | directory entries =>
    simp only [load, Source.row, hnode]
    exact Logged.comesTo_throw _
  | file bytes times =>
    simp only [load, Source.row, hnode]
    refine (Logged.comesTo_note _ _).bind ?_
    cases Text.readUtf8 bytes with
    | error e => exact (Logged.comesTo_throw _).bind_error
    | ok cs =>
      refine (Logged.comesTo_pure _).bind ?_
      dsimp only
      cases readFields (splitFrontmatter (Text.unifyLineEnds cs)).1 with
      | error f => exact (Logged.comesTo_throw _).bind_error
      | ok fields? =>
        cases fields? with
        | some fields => exact (Logged.comesTo_pure _).bind (Logged.comesTo_pure _)
        | none =>
          refine (Logged.comesTo_note _ _).bind ?_
          exact (Logged.comesTo_pure _).bind (Logged.comesTo_pure _)

theorem comesTo_loadOrSkip (s : Source) : (loadOrSkip s).ComesTo s.row? := by
  have hload := (comesTo_load s).result_fst
  unfold loadOrSkip Source.row?
  cases hrow : s.row with
  | ok row =>
    rw [hrow] at hload
    simp only [hload]
    exact Logged.comesTo_ofResult _
  | error f =>
    rw [hrow] at hload
    simp only [hload]
    refine (Logged.comesTo_ofResult _).bind ?_
    split
    · exact (Logged.comesTo_note _ _).bind (Logged.comesTo_pure _)
    · exact Logged.comesTo_throw _

/-! ### Many notes -/

section
variable {ss : List Source}

theorem loadAll_eq (hs : ∀ s ∈ ss, ∀ f, ¬s.Breaks f) :
    (loadAll ss).result.1 = .ok (ss.filterMap fun s => (load s).result.1.toOption) := by
  have hrows : (ss.mapM loadOrSkip).ComesTo (.ok (ss.map fun s => s.row.toOption)) :=
    Logged.ComesTo.mapM fun s hmem => s.row?_eq (hs s hmem) ▸ comesTo_loadOrSkip s
  have hall : (loadAll ss).ComesTo (.ok ((ss.map fun s => s.row.toOption).filterMap id)) :=
    hrows.bind ((Logged.comesTo_note _ _).bind (Logged.comesTo_pure _))
  rw [hall.result_fst, List.filterMap_map]
  simp only [(comesTo_load _).result_fst]
  rfl

theorem loadAll_of_breaks {before after : List Source} {s : Source} {f : Yaml.Fault}
    (hbefore : ∀ t ∈ before, ∀ g, ¬t.Breaks g) (h : s.Breaks f) :
    (loadAll (before ++ s :: after)).result.1 = .error (.frontmatter f) := by
  have hrows : ((before ++ s :: after).mapM loadOrSkip).ComesTo (.error (.frontmatter f)) :=
    Logged.ComesTo.mapM_error (fun t ht => t.row?_eq (hbefore t ht) ▸ comesTo_loadOrSkip t)
      (s.row?_of_breaks h ▸ comesTo_loadOrSkip s)
  have hall : (loadAll (before ++ s :: after)).ComesTo (.error (.frontmatter f)) :=
    hrows.bind_error
  exact hall.result_fst

end

/-! ### The notes under names -/

section
variable (look : Path → Except PathFault FileNode)

/-- The names that are asked for: the current directory where there are none. -/
def named (names : List String) : List String := if names.isEmpty then ["."] else names

/-- The notes that one name leads to. -/
def sourcesOf (name : String) : List Source :=
  let path := Path.ofText name
  match look path with
  | .error _ => []
  | .ok (.file bytes times) => [⟨path, ⟨false, [path.name]⟩, .file bytes times⟩]
  | .ok (.directory es) =>
    (FileNode.directory es).notes.map fun n => ⟨path.append n.1, ⟨false, n.1⟩, n.2⟩

theorem sources_eq {names : List String}
    (hlook : ∀ name ∈ named names, ∃ n, look (Path.ofText name) = .ok n) :
    sources look names = .ok ((named names).flatMap (sourcesOf look)) := by
  unfold sources
  dsimp only
  rw [← named.eq_1, mapM_eq_ok (g := sourcesOf look)]
  · rw [List.flatMap_def]
    rfl
  · intro name hname
    obtain ⟨n, hn⟩ := hlook name hname
    cases n <;> simp only [sourcesOf, hn]

/-- The place of a note below its vault. -/
def Source.located (s : Source) : Located := (s.relative.parts, s.node)

theorem pairwise_sourcesOf (name : String) :
    (sourcesOf look name).Pairwise fun s t => Located.le s.located t.located = true := by
  unfold sourcesOf
  dsimp only
  split
  · exact .nil
  · exact List.pairwise_singleton _ _
  · next entries _ => exact (FileNode.pairwise_notes (.directory entries)).map _ fun _ _ h => h

/-- Where a note lies that a name leads to: it is the file of that name, or a note somewhere below the
directory of that name. -/
inductive LiesUnder (name : String) : Source → Prop
  | file {bytes : List UInt8} {times : FileTimes}
      (h : look (Path.ofText name) = .ok (.file bytes times)) :
      LiesUnder name ⟨Path.ofText name, ⟨false, [(Path.ofText name).name]⟩, .file bytes times⟩
  | note {entries : List (String × FileNode)} {parts : List String} {n : FileNode}
      (h : look (Path.ofText name) = .ok (.directory entries))
      (hn : (parts, n) ∈ (FileNode.directory entries).notesFrom []) :
      LiesUnder name ⟨(Path.ofText name).append parts, ⟨false, parts⟩, n⟩

theorem mem_sourcesOf {name : String} {s : Source} :
    s ∈ sourcesOf look name ↔ LiesUnder look name s := by
  unfold sourcesOf
  dsimp only
  constructor
  · intro h
    split at h
    · cases h
    · next hlook =>
      rw [List.mem_singleton.mp h]
      exact .file hlook
    · next entries hlook =>
      obtain ⟨n, hn, rfl⟩ := List.mem_map.mp h
      exact .note hlook (List.mem_mergeSort.mp hn)
  · intro h
    cases h with
    | file h =>
      rw [h]
      exact List.mem_singleton_self _
    | note h hn =>
      rw [h]
      exact List.mem_map.mpr ⟨_, List.mem_mergeSort.mpr hn, rfl⟩

end

/-- A directory of two notes with these bytes, as it is looked up. -/
def twoNotes (a b : List UInt8) : Path → Except PathFault FileNode :=
  (FileNode.directory [("a.md", .file a ⟨default, default⟩), ("b.md", .file b ⟨default, default⟩)]).find

def ascii (s : String) : List UInt8 := s.toList.map fun c => c.toNat.toUInt8

theorem exists_twoNotes (a b : List UInt8) :
    ∀ name ∈ named ["a.md", "b.md"], ∃ n, twoNotes a b (Path.ofText name) = .ok n := by
  have ha : Path.ofText "a.md" = ⟨false, ["a.md"]⟩ := by decide +kernel
  have hb : Path.ofText "b.md" = ⟨false, ["b.md"]⟩ := by decide +kernel
  simp only [named, List.isEmpty_cons, Bool.false_eq_true, if_false, List.forall_mem_cons]
  rw [ha, hb]
  exact ⟨⟨_, rfl⟩, ⟨_, rfl⟩, nofun⟩

end NoteQuery.Note
