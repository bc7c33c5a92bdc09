import Mathlib.Data.List.AList

/-!
The texts that a transformer worker is sent (`sidecar.go`).

A session keeps the stamp under which it last saw each file, and the files whose text came from an
overlay. A request ships the texts that these do not account for. Both are written while the request
is put together: where a file cannot be read the request fails, and what it has noted until then
stays noted although nothing is sent. Files are named by their normalized paths.
-/

namespace Rotor.Compile.Sidecar

open List
open Option (isSome_iff_ne_none)
open AList (lookup_insert lookup_insert_ne)

variable {F S T : Type} [DecidableEq F]

abbrev Stamps (F S : Type) := AList fun _ : F => S

structure Session (F S : Type) where
  stamps : Stamps F S
  overlaid : List F

/-- How a round trip ends. One that takes too long is not tried again. -/
inductive Trip where
  | answered
  | broken
  | late

/-- A request and what it finds: the files of the program, their stamps, which of them can be read,
and how the two attempts go. -/
structure Request (F S T : Type) where
  files : List F
  overlays : AList fun _ : F => T
  stat : F → S
  readable : F → Bool
  spawns : Nat → Bool
  trip : Nat → Trip

/-- A session, the texts its worker has, and the files of which it is not certain that the worker
has the text under the noted stamp: those that a request had read, or whose overlay it had dropped,
when it failed, until one with the file in its program is answered. -/
structure Link (F S T : Type) where
  session : Session F S
  worker : F → T
  uncertain : List F

section Requests

-- An edit changes the stamp of a file, so that the stamp determines the text.
variable [DecidableEq S] (text : F → S → T) (req : Request F S T)

def Request.disk (file : F) : T := text file (req.stat file)

def revertStamps : List F → Stamps F S → Stamps F S
  | [], stamps => stamps
  | file :: files, stamps => revertStamps files
      (if req.readable file then stamps.insert file (req.stat file) else stamps.erase file)

def dropped (session : Session F S) : List F :=
  session.overlaid.filter fun file => (req.overlays.lookup file).isNone

def revertDroppedOverlays (session : Session F S) : Stamps F S × List (F × T) :=
  (revertStamps req (dropped req session) session.stamps,
    ((dropped req session).filter req.readable).map fun file =>
      (file, req.disk text file))

/-- The loop over the files: the stamps, the texts that were read, and whether all could be. -/
def stampFiles (fresh : Bool) : List F → Stamps F S → Stamps F S × List (F × T) × Bool
  | [], stamps => (stamps, [], true)
  | file :: files, stamps =>
    if (req.overlays.lookup file).isSome then stampFiles fresh files stamps
    else if fresh || stamps.lookup file = some (req.stat file) then
      stampFiles fresh files (stamps.insert file (req.stat file))
    else if req.readable file then
      let (stamps, changed, ok) := stampFiles fresh files (stamps.insert file (req.stat file))
      (stamps, (file, req.disk text file) :: changed, ok)
    else (stamps, [], false)

/-- The overlays that are not dropped are among those of the request. -/
def changedFilesFor (session : Session F S) : Session F S × List (F × T) × Bool :=
  let fresh := session.stamps.entries.isEmpty
  let (stamps, reverted) := revertDroppedOverlays text req session
  let (stamps, changed, ok) := stampFiles text req fresh req.files stamps
  (⟨stamps, req.overlays.keys⟩,
    reverted ++ req.overlays.entries.map (fun entry => (entry.1, entry.2)) ++ changed, ok)

def deliver (worker : F → T) (changed : List (F × T)) (file : F) : T :=
  ((changed.filter (·.1 = file)).getLast?.map Prod.snd).getD (worker file)

def spawn : Link F S T := ⟨⟨∅, []⟩, req.disk text, []⟩

/-- What is left of the session, and whether the request was answered. -/
def runTransformerSidecar (retries : Nat) (kept : Option (Link F S T)) :
    Option (Link F S T) × Bool :=
  match kept.or (if req.spawns retries then some (spawn text req) else none) with
  | none => (none, false)
  | some link =>
    match changedFilesFor text req link.session with
    | (session, changed, false) =>
      (some ⟨session, link.worker, link.uncertain ++ link.session.overlaid ++
        changed.map Prod.fst⟩, false)
    | (session, changed, true) =>
      match req.trip retries, retries with
      | .answered, _ =>
        (some ⟨session, deliver link.worker changed, link.uncertain.filter (· ∉ req.files)⟩, true)
      | .broken, retries + 1 => runTransformerSidecar retries none
      | _, _ => (none, false)

/-- The worker has the overlay of every file of the program that has one, and the text on disk of
every other one. -/
def Current (worker : F → T) : Prop :=
  ∀ file ∈ req.files, worker file = (req.overlays.lookup file).getD (req.disk text file)

/-- The worker has the text on disk of every file without an overlay that the request does not
ship: one whose overlay is not dropped or cannot be read, where the session has noted no stamp
at all, or the present one although it is not certain that the text was sent. -/
def Covers (link : Link F S T) : Prop :=
  ∀ file ∈ req.files, req.overlays.lookup file = none →
    (file ∈ link.session.overlaid → req.readable file = false) →
    (link.session.stamps.entries = [] ∨ file ∈ link.uncertain ∧
      link.session.stamps.lookup file = some (req.stat file)) →
    link.worker file = req.disk text file

variable (retries : Nat) (kept : Option (Link F S T))

def Updates : Prop :=
  (runTransformerSidecar text req retries kept).2 = true →
    ∀ link ∈ (runTransformerSidecar text req retries kept).1, Current text req link.worker

def Covered : Prop :=
  (runTransformerSidecar text req retries kept).2 = true → req.trip retries = .answered →
    ∀ link ∈ kept, Covers text req link

end Requests

/-- Something holds of each request of a sequence, with the session that is kept before it. -/
def Along [DecidableEq S] (text : F → S → T) (holds : Request F S T → Option (Link F S T) → Prop) :
    Option (Link F S T) → List (Request F S T) → Prop
  | _, [] => True
  | kept, req :: requests =>
    holds req kept ∧ Along text holds (runTransformerSidecar text req 1 kept).1 requests

section Sessions

variable {text : F → S → T} {req : Request F S T} {file : F} {session : Session F S}

lemma lookup_revertStamps (files : List F) (stamps : Stamps F S) :
    (revertStamps req files stamps).lookup file =
      if file ∈ files then
        if req.readable file then some (req.stat file) else none
      else stamps.lookup file := by
  induction files generalizing stamps with
  | nil => rfl
  | cons first files step =>
    rw [revertStamps, step]
    by_cases same : file = first
    · subst same
      cases read : req.readable file <;> simp
    · cases read : req.readable first <;> simp [same]

lemma lookup_reverted (bare : req.overlays.lookup file = none) :
    (revertStamps req (dropped req session) session.stamps).lookup file =
      if file ∈ session.overlaid then
        if req.readable file then some (req.stat file) else none
      else session.stamps.lookup file := by
  rw [lookup_revertStamps]
  simp [dropped, bare]

lemma deliver_cases (worker : F → T) (changed : List (F × T)) (file : F) :
    (file, deliver worker changed file) ∈ changed ∨
      (∀ sent, (file, sent) ∉ changed) ∧ deliver worker changed file = worker file := by
  cases last : (changed.filter (·.1 = file)).getLast? with
  | none =>
    refine .inr ⟨fun sent mem => ?_, by rw [deliver, last]; rfl⟩
    exact List.filter_eq_nil_iff.mp (List.getLast?_eq_none_iff.mp last) _ mem (by simp)
  | some entry =>
    obtain ⟨mem, same⟩ := mem_filter.mp (List.mem_of_getLast? last)
    obtain ⟨name, sent⟩ := entry
    obtain rfl : name = file := of_decide_eq_true same
    exact .inl (by simpa [deliver, last] using mem)

variable [DecidableEq S] {fresh : Bool} {files : List F} {stamps : Stamps F S}

lemma stampFiles_fresh : (stampFiles text req true files stamps).2.2 := by
  induction files generalizing stamps with
  | nil => rfl
  | cons first files step => grind [stampFiles]

lemma stampFiles_read {changed : T}
    (mem : (file, changed) ∈ (stampFiles text req fresh files stamps).2.1) :
    changed = req.disk text file ∧ file ∈ files ∧ req.overlays.lookup file = none ∧
      fresh = false ∧ stamps.lookup file ≠ some (req.stat file) ∧
      req.readable file := by
  induction files generalizing stamps with
  | nil => simp [stampFiles] at mem
  | cons first files step =>
    grind [stampFiles, lookup_insert_ne, lookup_insert, isSome_iff_ne_none]

lemma stampFiles_keeps {stamp : S}
    (noted : (stampFiles text req fresh files stamps).1.lookup file = some stamp) :
    stamps.lookup file = some stamp ∨ file ∈ files ∧ (fresh ∨
      (file, req.disk text file) ∈ (stampFiles text req fresh files stamps).2.1) := by
  induction files generalizing stamps with
  | nil => exact .inl noted
  | cons first files step =>
    grind [stampFiles, lookup_insert_ne, lookup_insert, isSome_iff_ne_none]

lemma stampFiles_notes (ok : (stampFiles text req fresh files stamps).2.2)
    (bare : req.overlays.lookup file = none)
    (seen : file ∈ files ∨ stamps.lookup file = some (req.stat file)) :
    (stampFiles text req fresh files stamps).1.lookup file = some (req.stat file) := by
  induction files generalizing stamps with
  | nil => simpa [stampFiles] using seen
  | cons first files step =>
    grind [stampFiles, lookup_insert_ne, lookup_insert, isSome_iff_ne_none]

lemma stampFiles_reads (ok : (stampFiles text req false files stamps).2.2)
    (mem : file ∈ files) (bare : req.overlays.lookup file = none)
    (other : stamps.lookup file ≠ some (req.stat file)) :
    (file, req.disk text file) ∈ (stampFiles text req false files stamps).2.1 := by
  induction files generalizing stamps with
  | nil => nomatch mem
  | cons first files step =>
    grind [stampFiles, lookup_insert_ne, lookup_insert, isSome_iff_ne_none]

/-- The worker has the text of every certain file under the stamp it is noted under. -/
def Sound (text : F → S → T) (link : Link F S T) : Prop :=
  ∀ file stamp, file ∉ link.uncertain → file ∉ link.session.overlaid →
    link.session.stamps.lookup file = some stamp → link.worker file = text file stamp

/-- What is shipped of a file: its overlay, or else its text on disk. -/
theorem mem_changed {sent : T} : (file, sent) ∈ (changedFilesFor text req session).2.1 ↔
      req.overlays.lookup file = some sent ∨
      req.overlays.lookup file = none ∧ (file ∈ session.overlaid ∧
        req.readable file ∧ req.disk text file = sent) ∨
        (file, sent) ∈ (stampFiles text req session.stamps.entries.isEmpty req.files
          (revertStamps req (dropped req session) session.stamps)).2.1 := by
  have entry : (∃ entry ∈ req.overlays.entries, entry.1 = file ∧ entry.2 = sent) ↔
      req.overlays.lookup file = some sent := by
    rw [← Option.mem_def, AList.mem_lookup_iff]
    exact ⟨fun ⟨⟨_, _⟩, mem, rfl, rfl⟩ => mem, fun mem => ⟨_, mem, rfl, rfl⟩⟩
  simp only [changedFilesFor, revertDroppedOverlays, dropped, mem_append, List.mem_map,
    mem_filter, entry, Option.isNone_iff_eq_none, Prod.mk.injEq]
  grind

lemma eq_disk_of_changed {sent : T} (bare : req.overlays.lookup file = none)
    (mem : (file, sent) ∈ (changedFilesFor text req session).2.1) :
    sent = req.disk text file := by
  rcases mem_changed.mp mem with found | ⟨_, _, _, same⟩ | read
  · rw [bare] at found
    nomatch found
  · exact same.symm
  · exact (stampFiles_read read).1

variable {link : Link F S T}

/-- A request that is sent brings the worker up to date exactly where it does not rely on what is
uncertain. -/
theorem current_iff_covers (sound : Sound text link)
    (ok : (changedFilesFor text req link.session).2.2) :
    Current text req (deliver link.worker (changedFilesFor text req link.session).2.1) ↔
    Covers text req link := by
  refine forall₂_congr fun file mem => ?_
  have sent := deliver_cases link.worker (changedFilesFor text req link.session).2.1 file
  cases bare : req.overlays.lookup file with
  | some overlay =>
    refine iff_of_true ?_ fun none => nomatch none
    rcases sent with shipped | ⟨never, _⟩
    · rcases mem_changed.mp shipped with found | ⟨gone, _⟩ | read
      · exact Option.some.inj (found.symm.trans bare)
      · nomatch bare.symm.trans gone
      · nomatch bare.symm.trans (stampFiles_read read).2.2.1
    · exact absurd (mem_changed.mpr (.inl bare)) (never _)
  | none =>
    have reverted := @lookup_reverted _ _ _ _ _ _ link.session bare
    rcases sent with shipped | ⟨never, kept⟩
    · refine iff_of_true (eq_disk_of_changed bare shipped) fun _ unread noted => ?_
      rcases mem_changed.mp shipped with found | ⟨_, known, read, _⟩ | read
      · nomatch bare.symm.trans found
      · nomatch (unread known).symm.trans read
      · obtain ⟨-, -, -, warm, other, read⟩ := stampFiles_read read
        have away : file ∉ link.session.overlaid := fun known =>
          nomatch (unread known).symm.trans read
        rw [reverted, if_neg away] at other
        rcases noted with empty | ⟨_, noted⟩
        · simp [empty] at warm
        · exact absurd noted other
    · rw [kept]
      refine ⟨fun same _ _ _ => same, fun covered => ?_⟩
      have unread : file ∈ link.session.overlaid → req.readable file = false := fun known =>
        Bool.eq_false_iff.mpr fun read => never _ (mem_changed.mpr (.inr (.inl
          ⟨bare, known, read, rfl⟩)))
      cases fresh : link.session.stamps.entries.isEmpty with
      | true => exact covered rfl unread (.inl (List.isEmpty_iff.mp fresh))
      | false =>
        simp only [changedFilesFor, revertDroppedOverlays, fresh] at ok
        -- a file with another stamp would have been read
        have noted := Classical.not_not.mp fun other => never _ (mem_changed.mpr (.inr (.inr
          (fresh ▸ stampFiles_reads ok mem bare other))))
        have away : file ∉ link.session.overlaid := fun known => by
          rw [reverted, if_pos known, unread known] at noted
          nomatch noted
        rw [reverted, if_neg away] at noted
        by_cases certain : file ∈ link.uncertain
        · exact covered rfl unread (.inr ⟨certain, noted⟩)
        · exact sound file _ certain away noted

lemma Sound.answered (sound : Sound text link) (ok : (changedFilesFor text req link.session).2.2)
    (current : Current text req (deliver link.worker (changedFilesFor text req link.session).2.1)) :
    Sound text ⟨(changedFilesFor text req link.session).1,
      deliver link.worker (changedFilesFor text req link.session).2.1,
      link.uncertain.filter (· ∉ req.files)⟩ := by
  intro file stamp certain away noted
  have bare : req.overlays.lookup file = none := AList.lookup_eq_none.mpr away
  by_cases mem : file ∈ req.files
  · obtain rfl := Option.some.inj ((stampFiles_notes ok bare (.inl mem)).symm.trans noted)
    exact (current file mem).trans (by rw [bare]; rfl)
  · rcases stampFiles_keeps noted with noted | ⟨listed, _⟩
    · rw [lookup_reverted bare] at noted
      have sent := deliver_cases link.worker (changedFilesFor text req link.session).2.1 file
      by_cases known : file ∈ link.session.overlaid
      · rw [if_pos known] at noted
        obtain ⟨read, same⟩ := Option.ite_none_right_eq_some.mp noted
        obtain rfl := Option.some.inj same
        rcases sent with shipped | ⟨never, _⟩
        · exact eq_disk_of_changed bare shipped
        · exact absurd (mem_changed.mpr (.inr (.inl ⟨bare, known, read, rfl⟩))) (never _)
      · rw [if_neg known] at noted
        rcases sent with shipped | ⟨_, kept⟩
        · rcases mem_changed.mp shipped with found | ⟨_, listed, _⟩ | read
          · nomatch bare.symm.trans found
          · exact absurd listed known
          · exact absurd (stampFiles_read read).2.1 mem
        · exact kept.trans (sound file stamp (by simpa [mem] using certain) known noted)
    · exact absurd listed mem

lemma Sound.failed (sound : Sound text link)
    (failed : (changedFilesFor text req link.session).2.2 = false) :
    Sound text ⟨(changedFilesFor text req link.session).1, link.worker,
      link.uncertain ++ link.session.overlaid ++
        (changedFilesFor text req link.session).2.1.map Prod.fst⟩ := by
  intro file stamp certain away noted
  have bare : req.overlays.lookup file = none := AList.lookup_eq_none.mpr away
  simp only [mem_append, not_or] at certain
  obtain ⟨⟨certain, away⟩, unread⟩ := certain
  refine sound file stamp certain away ?_
  rcases stampFiles_keeps noted with noted | ⟨_, fresh | read⟩
  · rwa [lookup_reverted bare, if_neg away] at noted
  · simp only [changedFilesFor, revertDroppedOverlays, fresh, stampFiles_fresh] at failed
    nomatch failed
  · exact absurd (List.mem_map_of_mem (mem_changed.mpr (.inr (.inr read)))) unread

omit [DecidableEq S] in
lemma sound_of_answering {kept : Option (Link F S T)} {spawns : Bool}
    (sound : ∀ link ∈ kept, Sound text link)
    (answering : kept.or (if spawns then some (spawn text req) else none) = some link) :
    Sound text link ∧
      (Covers text req link ↔ ∀ link ∈ kept, Covers text req link) := by
  cases kept with
  | some kept =>
    obtain rfl : kept = link := by simpa using answering
    exact ⟨sound kept rfl, by simp⟩
  | none =>
    obtain ⟨-, rfl⟩ : spawns ∧ spawn text req = link := by simpa using answering
    exact ⟨fun file stamp _ _ noted => by simp [spawn] at noted,
      iff_of_true (fun _ _ _ _ _ => rfl) (by simp)⟩

/-- Where the session was sound, the worker is brought up to date exactly where the session that
answers covers the request, and then the session is sound again. -/
theorem updates_iff_covered (req : Request F S T) (retries : Nat)
    {kept : Option (Link F S T)} (sound : ∀ link ∈ kept, Sound text link) :
    (Updates text req retries kept ↔ Covered text req retries kept) ∧
      (Updates text req retries kept →
        ∀ link ∈ (runTransformerSidecar text req retries kept).1, Sound text link) := by
  simp only [Updates, Covered]
  fun_induction runTransformerSidecar text req retries kept with
  | case1 => simp
  | case2 retries kept link answering session changed failed =>
    have ⟨here, _⟩ := sound_of_answering sound answering
    have unsent : (changedFilesFor text req link.session).2.2 = false := by rw [failed]
    have next := here.failed unsent
    rw [failed] at next
    simpa using next
  | case3 retries kept link answering session changed sent trip =>
    have ⟨here, covers⟩ := sound_of_answering sound answering
    have ok : (changedFilesFor text req link.session).2.2 := by rw [sent]
    have same := current_iff_covers here ok
    have next := here.answered ok
    rw [sent] at same next
    simpa [trip, same] using And.intro covers fun covered => next (same.mpr covered)
  | case4 kept link session changed sent retries answering trip again =>
    simpa [trip] using again (by simp)
  | case5 => simp_all

variable (text) in
/-- Along every sequence of requests, the worker is brought up to date by each that is answered
exactly where each is covered. -/
theorem along_updates_iff (requests : List (Request F S T)) :
    Along text (Updates text · 1) none requests ↔ Along text (Covered text · 1) none requests := by
  have sound : ∀ link ∈ (none : Option (Link F S T)), Sound text link := by simp
  generalize (none : Option (Link F S T)) = kept at sound ⊢
  induction requests generalizing kept with
  | nil => exact Iff.rfl
  | cons req requests step =>
    have ⟨same, next⟩ := updates_iff_covered req 1 sound
    refine ⟨fun ⟨now, later⟩ => ?_, fun ⟨covered, later⟩ => ?_⟩
    · exact ⟨same.mp now, (step _ (next now)).mp later⟩
    · have now := same.mpr covered
      exact ⟨now, (step _ (next now)).mpr later⟩

end Sessions

def twoFiles (stamp : Nat) (readable : Bool → Bool) : Request Bool Nat Nat where
  files := [false, true]
  overlays := ∅
  stat _ := stamp
  readable := readable
  spawns _ := true
  trip _ := .answered

/-- Both files are edited, and the second cannot be read at first: the first is noted under its
new stamp, and its new text is never sent. -/
theorem twoFiles_stale : ¬ Along (fun _ stamp => stamp) (Updates (fun _ stamp => stamp) · 1) none
      [twoFiles 0 fun _ => true, twoFiles 1 (! ·), twoFiles 1 fun _ => true] := by
  rintro ⟨_, _, updates, _⟩
  exact absurd (updates rfl _ rfl false (by decide)) (by decide)

end Rotor.Compile.Sidecar
