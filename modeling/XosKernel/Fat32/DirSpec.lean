/-
# Fat32.DirSpec -- directories of a volume

A directory of the volume is the list of its slots (`Vol.slots`).  Loading a directory
cluster delivers that list, and a scan of the buffer is a search in it (`lookup`); writing
a buffer with one entry replaced sets one slot (`Vol.slots_setSlot`).  Path navigation is
then a walk over the volume alone (`Vol.walk`, `navigatePath_runs`).
-/
import XosKernel.Fat32.Files
import XosKernel.Fat32.Volume

namespace XosKernel.Fat32

open XosKernel.Theory

set_option autoImplicit false

theorem Dirent.name0_of_eq {e : Dirent} {name : Name83} (same : e.name = name) :
    e.name0 = name.1.getD 0 0 := by
  rw [Dirent.name0, same]

/-! ## Searching a list of slots -/

/-- The slot a scan stops at, if it stops at one. -/
def Scan.toOption : Scan → Option (Nat × Dirent)
  | .found slot e => some (slot, e)
  | .ended => none
  | .exhausted => none

/-- The first visible slot that passes a test: before the end marker, not deleted, not part
of a long name. -/
def lookup (test : Dirent → Bool) (l : List Dirent) : Option (Nat × Dirent) :=
  (scanLive test l 0).toOption

/-- A slot that a scan for `test` goes past. -/
def passes (test : Dirent → Bool) (e : Dirent) : Prop :=
  e.name0 ≠ 0 ∧ (e.skipped = true ∨ test e = false)

theorem scanLive_toOption (test : Dirent → Bool) : ∀ (l : List Dirent) (k i : Nat) (e : Dirent),
    (scanLive test l k).toOption = some (i, e) ↔
      ∃ n, i = k + n ∧ l[n]? = some e ∧ e.name0 ≠ 0 ∧ e.skipped = false ∧ test e = true ∧
        ∀ m, m < n → ∀ e', l[m]? = some e' → passes test e'
  | [], k, i, e => by simp [scanLive, Scan.toOption]
  | x :: l, k, i, e => by
      have ih := scanLive_toOption test l (k + 1) i e
      -- a slot that is passed shifts the search by one
      have shift : passes test x →
          ((∃ n, i = k + 1 + n ∧ l[n]? = some e ∧ e.name0 ≠ 0 ∧ e.skipped = false ∧
              test e = true ∧ ∀ m, m < n → ∀ e', l[m]? = some e' → passes test e') ↔
            ∃ n, i = k + n ∧ (x :: l)[n]? = some e ∧ e.name0 ≠ 0 ∧ e.skipped = false ∧
              test e = true ∧ ∀ m, m < n → ∀ e', (x :: l)[m]? = some e' → passes test e') := by
        intro passed
        constructor
        · rintro ⟨n, rfl, at_n, visible, unskipped, hit, before⟩
          refine ⟨n + 1, by omega, by simpa using at_n, visible, unskipped, hit, ?_⟩
          intro m hm e' at_m
          cases m with
          | zero =>
              have same : x = e' := by simpa using at_m
              exact same ▸ passed
          | succ m => exact before m (by omega) e' (by simpa using at_m)
        · rintro ⟨n, rfl, at_n, visible, unskipped, hit, before⟩
          cases n with
          | zero =>
              have same : x = e := by simpa using at_n
              subst same
              rcases passed.2 with skip | miss
              · rw [skip] at unskipped; cases unskipped
              · rw [miss] at hit; cases hit
          | succ n =>
              refine ⟨n, by omega, by simpa using at_n, visible, unskipped, hit, ?_⟩
              intro m hm e' at_m
              exact before (m + 1) (by omega) e' (by simpa using at_m)
      by_cases ends : x.name0 = 0
      · simp only [scanLive, if_pos ends, Scan.toOption, reduceCtorEq, false_iff]
        rintro ⟨n, -, at_n, visible, -, -, before⟩
        cases n with
        | zero =>
            have same : x = e := by simpa using at_n
            exact visible (same ▸ ends)
        | succ n => exact (before 0 (by omega) x rfl).1 ends
      · by_cases skip : x.skipped = true
        · rw [← shift ⟨ends, .inl skip⟩, ← ih]
          simp [scanLive, ends, skip]
        · by_cases hit : test x = true
          · simp only [scanLive, if_neg ends, if_neg skip, if_pos hit, Scan.toOption,
              Option.some.injEq, Prod.mk.injEq]
            constructor
            · rintro ⟨rfl, rfl⟩
              exact ⟨0, by omega, rfl, ends, by simpa using skip, hit, by omega⟩
            · rintro ⟨n, rfl, at_n, -, -, -, before⟩
              cases n with
              | zero => exact ⟨rfl, by simpa using at_n⟩
              | succ n =>
                  rcases (before 0 (by omega) x rfl).2 with skipped | miss
                  · exact absurd skipped skip
                  · rw [miss] at hit; cases hit
          · rw [← shift ⟨ends, .inr (by simpa using hit)⟩, ← ih]
            simp [scanLive, ends, skip, hit]

/-- What a search returns: the first visible slot that passes the test. -/
theorem lookup_eq_some {test : Dirent → Bool} {l : List Dirent} {i : Nat} {e : Dirent} :
    lookup test l = some (i, e) ↔
      l[i]? = some e ∧ e.name0 ≠ 0 ∧ e.skipped = false ∧ test e = true ∧
        ∀ m, m < i → ∀ e', l[m]? = some e' → passes test e' := by
  unfold lookup
  rw [scanLive_toOption]
  constructor
  · rintro ⟨n, rfl, rest⟩
    simpa using rest
  · intro rest
    exact ⟨i, by omega, rest⟩

/-! ## Directory buffers -/

theorem Geometry.maxEntries_eq {fs : Fs} : fs.maxEntries = fs.sectorsPerCluster * 16 := by
  simp only [Fs.maxEntries, direntSize]
  omega

theorem Geometry.dirSectors_eq {fs : Fs} (g : Geometry fs) :
    fs.dirSectors = fs.sectorsPerCluster := by
  have := g.spc_le
  rw [Fs.dirSectors, if_neg (by simp only [dirBufferSize]; omega)]

/-- A buffer with the contents of a cluster decodes to the cluster's slots. -/
theorem entries_eq_slots {d : Driver} (g : Geometry d.fs) {c : Nat} {b : Buf}
    (contents : ∀ i, i < d.vol.clusterSize → b i = d.vol.bytes c i) :
    d.fs.entries b = d.vol.slots c := by
  have := g.spc_le
  have count : min d.fs.maxEntries (dirBufferSize / direntSize) = d.vol.spc * 16 := by
    rw [Geometry.maxEntries_eq]
    simp only [dirBufferSize, direntSize, Driver.vol]
    omega
  unfold Fs.entries Vol.slots
  rw [count]
  apply List.map_congr_left
  intro i member
  rw [List.mem_range] at member
  apply Dirent.load_congr
  intro k hk
  apply contents
  simp only [Vol.clusterSize, direntSize] at hk ⊢
  omega

theorem loadDirectoryCluster_runs {d : Driver} (good : d.Good) {c : Nat}
    (hc : d.vol.InRange c) :
    Runs (loadDirectoryCluster c) d fun r d' =>
      ∃ b, r = some b ∧ (∀ i, i < d.vol.clusterSize → b i = d.vol.bytes c i) ∧
        Effect d d' d.vol := by
  unfold loadDirectoryCluster
  refine Runs.get_bind ?_
  rw [good.geometry.dirSectors_eq]
  refine Runs.step (ataReadSectors_run good.noFault _ _ _ _) (Runs.pure ?_)
  rw [if_pos rfl]
  refine ⟨_, rfl, ?_, good.effect_tick _⟩
  exact fun i hi => good.geometry.read_cluster hc (fun _ => 0) hi

/-- The directory buffer holds a whole cluster. -/
def Driver.Roomy (d : Driver) : Prop := d.fs.sectorsPerCluster ≤ 32

theorem Geometry.roomy {d : Driver} (g : Geometry d.fs) : d.Roomy := g.spc_le.trans (by decide)

theorem endOfEntries_run {d : Driver} (roomy : d.Roomy) :
    (d.fs.endOfEntries).run d = .ok ((), d) := by
  have small : d.fs.sectorsPerCluster ≤ 32 := roomy
  unfold Fs.endOfEntries
  rw [Geometry.maxEntries_eq, if_neg (by simp only [dirBufferSize, direntSize]; omega)]
  rfl

theorem scanDirectory_run {d : Driver} (roomy : d.Roomy) (test : Dirent → Bool) (b : Buf) :
    (scanDirectory test b).run d = .ok (lookup test (d.fs.entries b), d) := by
  unfold scanDirectory lookup
  have start : (get : FatM Driver).run d = .ok (d, d) := rfl
  refine (run_bind_of_ok start).trans ?_
  cases scanLive test (d.fs.entries b) 0 with
  | found slot e => rfl
  | ended => rfl
  | exhausted =>
      change (d.fs.endOfEntries >>= fun _ => pure none).run d = _
      rw [run_bind_of_ok (endOfEntries_run roomy)]
      rfl

theorem findInDirectory_runs {d : Driver} (good : d.Good) {c : Nat} (hc : d.vol.InRange c)
    (name : List UInt8) :
    Runs (findInDirectory c name) d fun r d' =>
      r = (lookup (nameMatch · name) (d.vol.slots c)).map Prod.snd ∧ Effect d d' d.vol := by
  unfold findInDirectory
  refine Runs.bind (loadDirectoryCluster_runs good hc) ?_
  rintro _ d' ⟨b, rfl, contents, effect⟩
  have g : Geometry d'.fs := effect.good.geometry
  refine Runs.step (scanDirectory_run g.roomy _ b) (Runs.pure ⟨?_, effect⟩)
  rw [effect.fs_eq, entries_eq_slots good.geometry contents]

theorem writeDirectoryCluster_runs {d : Driver} (good : d.Good) {c : Nat} (hc : d.vol.InRange c)
    (b : Buf) :
    Runs (writeDirectoryCluster c b) d fun ok d' =>
      ok = true ∧ Effect d d' (d.vol.setBytes c b) := by
  have := good.geometry.spc_le
  unfold writeDirectoryCluster
  refine Runs.get_bind ?_
  rw [if_neg (by simp only [dirBufferSize]; omega)]
  refine Runs.step (ataWriteSectors_run good.noFault _ _ _ _ _) (Runs.pure ⟨by simp, ?_⟩)
  exact good.effect_wrote hc b

theorem loadRootDirectory_runs {d : Driver} (good : d.Good) (hroot : d.vol.InRange d.vol.root) :
    Runs loadRootDirectory d fun ok d' => ok = true ∧ Effect d d' d.vol ∧
      ∀ i, i < d.vol.clusterSize → d'.rootDirBuffer i = d.vol.bytes d.vol.root i := by
  unfold loadRootDirectory
  refine Runs.get_bind ?_
  rw [good.geometry.dirSectors_eq]
  refine Runs.step (ataReadSectors_run good.noFault _ _ _ _) (Runs.modify_bind (Runs.pure ?_))
  refine ⟨by simp, ⟨⟨good.geometry, good.mounted, good.noFault, good.copies, good.coherent⟩,
    rfl, rfl, rfl⟩, ?_⟩
  exact fun i hi => good.geometry.read_cluster hroot _ hi

theorem refreshRoot_runs {d : Driver} (good : d.Good) (hroot : d.vol.InRange d.vol.root)
    (parent : Nat) :
    Runs (refreshRoot parent) d fun ok d' => ok = true ∧ Effect d d' d.vol := by
  unfold refreshRoot
  refine Runs.get_bind ?_
  split
  · exact Runs.mono (loadRootDirectory_runs good hroot) fun _ _ h => ⟨h.1, h.2.1⟩
  · exact Runs.pure ⟨rfl, Effect.refl good⟩

/-! ## Setting a slot -/

namespace Vol

variable {v : Vol} {c x i : Nat} {e : Dirent} {b b' : Buf}

/-- Store an entry into a slot of a directory. -/
def setSlot (v : Vol) (c i : Nat) (e : Dirent) : Vol :=
  v.setBytes c (Dirent.store (v.bytes c) (i * direntSize) e)

theorem setBytes_congr (same : ∀ i, i < v.clusterSize → b i = b' i) :
    v.setBytes c b = v.setBytes c b' := by
  have contents : (fun i => if i < v.clusterSize then b i else 0) =
      fun i => if i < v.clusterSize then b' i else 0 := by
    funext i
    split
    · exact same i ‹_›
    · rfl
  simp only [setBytes, contents]

/-- Writing back a loaded buffer with one entry replaced sets that slot. -/
theorem setBytes_store (contents : ∀ i, i < v.clusterSize → b i = v.bytes c i) :
    v.setBytes c (Dirent.store b (i * direntSize) e) = v.setSlot c i e := by
  apply setBytes_congr
  intro k hk
  unfold Dirent.store Buf.blit
  rw [contents k hk]

theorem length_slots (v : Vol) (c : Nat) : (v.slots c).length = v.spc * 16 := by
  simp [slots]

theorem getElem?_slots (h : i < v.spc * 16) :
    (v.slots c)[i]? = some (Dirent.load (v.bytes c) (i * direntSize)) := by
  simp [slots, h]

theorem slots_setBytes_of_ne (ne : x ≠ c) : (v.setBytes c b).slots x = v.slots x := by
  simp only [slots, setBytes_bytes_of_ne v ne]
  rfl

theorem slots_setSlot_of_ne (ne : x ≠ c) : (v.setSlot c i e).slots x = v.slots x :=
  slots_setBytes_of_ne ne

/-- A directory written from a buffer has the entries of the buffer. -/
theorem slots_setBytes_self :
    (v.setBytes c b).slots c = (List.range (v.spc * 16)).map fun i =>
      Dirent.load b (i * direntSize) := by
  apply List.map_congr_left
  intro k member
  rw [List.mem_range] at member
  change k < v.spc * 16 at member
  apply Dirent.load_congr
  intro o ho
  rw [setBytes_bytes_self, if_pos]
  simp only [clusterSize, direntSize] at ho ⊢
  omega

theorem slots_setSlot_self : (v.setSlot c i e).slots c = (v.slots c).set i e := by
  unfold setSlot
  rw [slots_setBytes_self]
  apply List.ext_getElem
  · simp [slots]
  · intro k low high
    rw [List.length_map, List.length_range] at low
    simp only [List.getElem_map, List.getElem_range, List.getElem_set, slots]
    by_cases here : i = k
    · subst here
      rw [if_pos rfl, Dirent.load_store]
    · rw [if_neg here, Dirent.load_store_of_disjoint]
      simp only [direntSize]
      omega

@[simp] theorem setBytes_fat : (v.setBytes c b).fat = v.fat := rfl

/-! ## Paths -/

/-- `fat32_find_in_directory` on the volume. -/
def find (v : Vol) (c : Nat) (name : List UInt8) : Option Dirent :=
  (lookup (nameMatch · name) (v.slots c)).map Prod.snd

/-- The component loop of path navigation on the volume. -/
def walk (v : Vol) : List UInt8 → Nat → List UInt8 → Option (Nat × List UInt8)
  | [], c, component => some (c, component)
  | ch :: path, c, component =>
      if ch = slash then
        if component = [] then v.walk path c []
        else
          match v.find c component with
          | none => none
          | some e => if e.isDirectory then v.walk path e.firstCluster [] else none
      else v.walk path c (if component.length < 255 then component ++ [ch] else component)

/-- `fat32_navigate_path` on the volume. -/
def navigate (v : Vol) (start : Nat) (path : List UInt8) : Nav :=
  match v.walk (skipSlash path) start [] with
  | none => ⟨-1, none, none, none⟩
  | some (c, []) => ⟨0, some c, none, none⟩
  | some (c, ch :: component) =>
      match v.find c (ch :: component) with
      | some e => ⟨1, some c, some e, some (ch :: component)⟩
      | none => ⟨0, some c, none, some (ch :: component)⟩

/-- A set of clusters that the subdirectories of its members belong to. -/
def Closed (v : Vol) (S : Nat → Prop) : Prop :=
  ∀ c, S c → v.InRange c ∧
    ∀ name e, v.find c name = some e → e.isDirectory = true → S e.firstCluster

theorem walk_mem {S : Nat → Prop} (closed : v.Closed S) :
    ∀ (path : List UInt8) (c : Nat) (component : List UInt8), S c →
      ∀ c' rest, v.walk path c component = some (c', rest) → S c'
  | [], c, component, inside, c', rest, reached => by
      cases reached
      exact inside
  | ch :: path, c, component, inside, c', rest, reached => by
      unfold walk at reached
      split at reached
      · split at reached
        · exact walk_mem closed path c [] inside c' rest reached
        · cases found : v.find c component with
          | none => rw [found] at reached; cases reached
          | some e =>
              rw [found] at reached
              simp only at reached
              split at reached
              · exact walk_mem closed path _ [] ((closed c inside).2 _ e found ‹_›) c' rest
                  reached
              · cases reached
      · exact walk_mem closed path c _ inside c' rest reached

end Vol

/-- A directory is written, and the copy of the root directory in memory loaded again. -/
theorem storeBuffer_runs {d : Driver} (good : d.Good) {p : Nat} {b : Buf}
    (parent : d.vol.InRange p) (root : d.vol.InRange d.vol.root) {rest : Bool → FatM Int}
    {failed : FatM Int} {Q : Int → Driver → Prop}
    (after : ∀ d', Effect d d' (d.vol.setBytes p b) → Runs (rest true) d' Q) :
    Runs (do
      if ← writeDirectoryCluster p b then
        let ok ← refreshRoot p
        rest ok
      else failed) d Q := by
  refine Runs.bind (writeDirectoryCluster_runs good parent _) ?_
  rintro _ d₁ ⟨rfl, stored⟩
  have root₁ : d₁.vol.InRange d₁.vol.root := by
    rw [stored.root_eq]
    exact (stored.inRange_iff _).mpr root
  simp only [if_true]
  refine Runs.bind (refreshRoot_runs stored.good root₁ p) ?_
  rintro _ d₂ ⟨rfl, refreshed⟩
  rw [stored.vol_eq] at refreshed
  exact after d₂ (stored.trans refreshed)

/-- An entry is stored in a directory that was loaded. -/
theorem storeEntry_runs {d : Driver} (good : d.Good) {p i : Nat} {e : Dirent} {b : Buf}
    (parent : d.vol.InRange p) (root : d.vol.InRange d.vol.root)
    (contents : ∀ i, i < d.vol.clusterSize → b i = d.vol.bytes p i) {rest : Bool → FatM Int}
    {failed : FatM Int} {Q : Int → Driver → Prop}
    (after : ∀ d', Effect d d' (d.vol.setSlot p i e) → Runs (rest true) d' Q) :
    Runs (do
      if ← writeDirectoryCluster p (Dirent.store b (i * direntSize) e) then
        let ok ← refreshRoot p
        rest ok
      else failed) d Q := by
  refine storeBuffer_runs good parent root fun d' stored => after d' ?_
  rwa [Vol.setBytes_store contents] at stored

theorem walkPath_runs {S : Nat → Prop} : ∀ (path : List UInt8) (c : Nat) (component : List UInt8)
    (d : Driver), d.Good → d.vol.Closed S → S c →
    Runs (walkPath path c component) d fun r d' =>
      r = d.vol.walk path c component ∧ Effect d d' d.vol
  | [], c, component, d, good, _, _ => Runs.pure ⟨rfl, Effect.refl good⟩
  | ch :: path, c, component, d, good, closed, inside => by
      unfold walkPath Vol.walk
      split
      · split
        · exact walkPath_runs path c [] d good closed inside
        · refine Runs.bind (findInDirectory_runs good (closed c inside).1 component) ?_
          rintro _ d₁ ⟨rfl, effect⟩
          change Runs (match d.vol.find c component with | none => _ | some e => _) d₁ _
          cases found : d.vol.find c component with
          | none => exact Runs.pure ⟨rfl, effect⟩
          | some e =>
              simp only
              split
              · have closed' : d₁.vol.Closed S := by rw [effect.vol_eq]; exact closed
                refine Runs.mono (walkPath_runs path _ [] d₁ effect.good closed'
                  ((closed c inside).2 _ e found ‹_›)) ?_
                rintro r d₂ ⟨rfl, effect'⟩
                rw [effect.vol_eq] at effect' ⊢
                exact ⟨rfl, effect.trans effect'⟩
              · exact Runs.pure ⟨rfl, effect⟩
      · exact walkPath_runs path c _ d good closed inside

/-- `fat32_navigate_path` on a good state, from a directory of a closed set. -/
theorem navigatePath_runs {S : Nat → Prop} {d : Driver} (good : d.Good) (closed : d.vol.Closed S)
    (path : List UInt8) (inside : S (d.fs.startCluster path)) :
    Runs (navigatePath path) d fun nav d' =>
      nav = d.vol.navigate (d.fs.startCluster path) path ∧ Effect d d' d.vol := by
  unfold navigatePath
  refine Runs.get_bind ?_
  refine Runs.bind (walkPath_runs (skipSlash path) _ [] d good closed inside) ?_
  rintro _ d₁ ⟨rfl, walked⟩
  unfold Vol.navigate
  cases reached : d.vol.walk (skipSlash path) (d.fs.startCluster path) [] with
  | none => exact Runs.pure ⟨rfl, walked⟩
  | some p =>
      obtain ⟨c, component⟩ := p
      cases component with
      | nil => exact Runs.pure ⟨rfl, walked⟩
      | cons ch component =>
          have inside' := Vol.walk_mem closed _ _ _ inside _ _ reached
          have range : d₁.vol.InRange c := by rw [walked.vol_eq]; exact (closed c inside').1
          refine Runs.bind (findInDirectory_runs walked.good range (ch :: component)) ?_
          rintro _ d₂ ⟨rfl, found⟩
          rw [walked.vol_eq] at found
          have effect := walked.trans found
          rw [walked.vol_eq]
          change Runs (match d.vol.find c (ch :: component) with | some e => _ | none => _) d₂ _
          cases found' : d.vol.find c (ch :: component) with
          | none => exact Runs.pure ⟨by simp only [found'], effect⟩
          | some e => exact Runs.pure ⟨by simp only [found'], effect⟩

/-- A path without a slash is walked without a search. -/
theorem walkPath_component : ∀ (path : List UInt8) (c : Nat) (component : List UInt8),
    slash ∉ path → component.length + path.length ≤ 255 →
    walkPath path c component = pure (some (c, component ++ path))
  | [], c, component, _, _ => by rw [List.append_nil]; rfl
  | ch :: path, c, component, noSlash, short => by
      rw [List.mem_cons, not_or] at noSlash
      rw [List.length_cons] at short
      unfold walkPath
      rw [if_neg (Ne.symm noSlash.1), if_pos (by omega),
        walkPath_component path c _ noSlash.2 (by simp; omega)]
      simp

end XosKernel.Fat32
