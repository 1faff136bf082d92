import IoTDrive.Lib.Counting
import Mathlib.Data.List.AList

/-! The loader of plugins. `dlopen` maps a library, which runs its constructor; of a library
that is mapped it only gives one more handle. `dlclose` gives a handle back; whether the last
one takes the library out of memory is up to the library. A mapping is known by its library and
the number of times that one has been mapped before. Which library a file name leads to
is said at each opening, since files are replaced while the program runs. -/

namespace IoTDrive.Framework.Plugins

open Lib

/-- `dl_handler`: one mapping of a library. -/
@[ext] structure Handle where
  lib : ℕ
  generation : ℕ
  deriving DecidableEq, Repr

/-- The keys that the constructor of a library registers, and whether it is unmapped when its
last handle is given back. -/
structure Libraries where
  keys : ℕ → List ℤ
  unmaps : ℕ → Bool

/-- `m_dll_map`, and of each library the number of handles that are out, how often it was
mapped, and whether it is mapped. -/
structure Loader where
  dllMap : AList fun _ : String => Handle
  refs : ℕ → ℕ
  generations : ℕ → ℕ
  mapped : ℕ → Bool

namespace Loader

def init : Loader := ⟨∅, fun _ => 0, fun _ => 0, fun _ => false⟩

/-- The code of a mapping can be called. -/
def Mapped (l : Loader) (h : Handle) : Prop :=
  l.mapped h.lib = true ∧ l.generations h.lib = h.generation

instance (l : Loader) (h : Handle) : Decidable (l.Mapped h) := inferInstanceAs (Decidable (_ ∧ _))

/-- A mapping is in the table of the loader. -/
def Loaded (l : Loader) (h : Handle) : Prop := ∃ fileName, l.dllMap.lookup fileName = some h

/-- `dlopen` of a library that is there. -/
def dlopen (l : Loader) (lib : ℕ) : Loader × Handle :=
  if l.mapped lib then
    ({ l with refs := Function.update l.refs lib (l.refs lib + 1) }, ⟨lib, l.generations lib⟩)
  else
    ({ l with
      refs := Function.update l.refs lib (l.refs lib + 1)
      generations := Function.update l.generations lib (l.generations lib + 1)
      mapped := Function.update l.mapped lib true }, ⟨lib, l.generations lib + 1⟩)

def dlclose (libs : Libraries) (l : Loader) (h : Handle) : Loader :=
  { l with
    refs := Function.update l.refs h.lib (l.refs h.lib - 1)
    mapped := if l.refs h.lib = 1 ∧ libs.unmaps h.lib = true then
      Function.update l.mapped h.lib false else l.mapped }

/-- `DLLLoader::Load`, with the mapping that it makes, if it makes one. -/
def load (l : Loader) (fileName : String) (found : Option ℕ) :
    Except String (Loader × Option Handle) :=
  if fileName ∈ l.dllMap then .ok (l, none)
  else
    match found with
    | none => .error "Couldn't open plugin"
    | some lib =>
      let (l', h) := l.dlopen lib
      .ok ({ l' with dllMap := l'.dllMap.insert fileName h }, if l.mapped lib then none else some h)

/-- `DLLLoader::Unload`. -/
def unload (libs : Libraries) (l : Loader) (fileName : String) : Except String Loader :=
  match l.dllMap.lookup fileName with
  | none => .error "Plugin doesn't exist"
  | some h =>
    let l' := l.dlclose libs h
    .ok { l' with dllMap := l'.dllMap.erase fileName }

/-- The loop of `~DLLLoader` over entries of the table. -/
def closeAll (libs : Libraries) (l : Loader) (entries : List (Σ _ : String, Handle)) : Loader :=
  entries.foldl (fun l e => l.dlclose libs e.2) l

/-- `~DLLLoader`. -/
def destroy (libs : Libraries) (l : Loader) : Loader := l.closeAll libs l.dllMap.entries

end Loader

/-- The table and the handles agree, and the table has mappings of the present only. -/
structure Sound (libs : Libraries) (l : Loader) : Prop where
  refs_eq : ∀ lib, l.refs lib = l.dllMap.entries.countP fun e => e.2.lib = lib
  generation_eq : ∀ (fileName : String) (h : Handle), l.dllMap.lookup fileName = some h →
    l.generations h.lib = h.generation
  mapped_of_refs : ∀ lib, 0 < l.refs lib → l.mapped lib = true
  unmapped : ∀ lib, l.refs lib = 0 → libs.unmaps lib = true → l.mapped lib = false

theorem init_sound (libs : Libraries) : Sound libs Loader.init where
  refs_eq lib := rfl
  generation_eq fileName h hm := by cases hm
  mapped_of_refs lib hpos := absurd hpos (Nat.lt_irrefl 0)
  unmapped lib _ _ := rfl

/-! ### The table -/

section Table
variable {libs : Libraries} {l : Loader} {m : AList fun _ : String => Handle} {fileName : String}
  {h : Handle}

theorem lookup_eq_some : m.lookup fileName = some h ↔ ⟨fileName, h⟩ ∈ m.entries :=
  AList.mem_lookup_iff

theorem lookup_insert_eq_some {other : String} {h' : Handle} :
    (m.insert fileName h).lookup other = some h' ↔
      other = fileName ∧ h = h' ∨ other ≠ fileName ∧ m.lookup other = some h' := by
  by_cases hne : other = fileName
  · subst hne
    simp
  · simp [AList.lookup_insert_ne, hne]

theorem countP_erase (p : (Σ _ : String, Handle) → Bool) (hm : m.lookup fileName = some h) :
    (m.erase fileName).entries.countP p + one (p ⟨fileName, h⟩) = m.entries.countP p := by
  have hkey : fileName ∈ m.entries.keys := AList.lookup_isSome.mp (by simp [hm])
  obtain ⟨h', l₁, l₂, -, hl, herase⟩ := List.exists_of_kerase hkey
  have hh : h' = h := by
    have hmem : m.lookup fileName = some h' := lookup_eq_some.mpr (by simp [hl])
    exact Option.some.inj (hmem.symm.trans hm)
  subst hh
  rw [show (m.erase fileName).entries = l₁ ++ l₂ from herase, hl]
  simp only [List.countP_append, List.countP_cons, one]
  omega

theorem Sound.refs_pos (hs : Sound libs l) (hm : l.dllMap.lookup fileName = some h) :
    0 < l.refs h.lib := by
  rw [hs.refs_eq]
  exact List.countP_pos_iff.mpr ⟨_, lookup_eq_some.mp hm, by simp⟩

theorem Sound.mapped (hs : Sound libs l) (hloaded : l.Loaded h) : l.Mapped h := by
  obtain ⟨fileName, hm⟩ := hloaded
  exact ⟨hs.mapped_of_refs _ (hs.refs_pos hm), hs.generation_eq fileName h hm⟩

/-- A library that is open under two names stays in the table when one is closed. -/
theorem Sound.loaded_erase (hs : Sound libs l) (hm : l.dllMap.lookup fileName = some h)
    (hrefs : l.refs h.lib ≠ 1) : ∃ other, (l.dllMap.erase fileName).lookup other = some h := by
  have hcount := countP_erase (fun e => e.2.lib = h.lib) hm
  rw [← hs.refs_eq] at hcount
  have hpos : 0 < l.refs h.lib := hs.refs_pos hm
  simp only [decide_true, one_true] at hcount
  obtain ⟨⟨other, h'⟩, hmem, hlib⟩ := List.countP_pos_iff.mp
    (show 0 < (l.dllMap.erase fileName).entries.countP fun e => e.2.lib = h.lib by omega)
  have hlib : h'.lib = h.lib := by simpa using hlib
  have hother : (l.dllMap.erase fileName).lookup other = some h' := lookup_eq_some.mpr hmem
  have hne : other ≠ fileName := by
    rintro rfl
    rw [AList.lookup_erase] at hother
    cases hother
  have hold := hother
  rw [AList.lookup_erase_ne hne] at hold
  have hgen := hs.generation_eq other h' hold
  rw [hlib, hs.generation_eq fileName h hm] at hgen
  exact ⟨other, hother.trans (congrArg some (Handle.ext hlib hgen.symm))⟩

/-- A library that is open under one name is gone from the table when that one is closed. -/
theorem Sound.not_loaded_erase (hs : Sound libs l) (hm : l.dllMap.lookup fileName = some h)
    (hrefs : l.refs h.lib = 1) (other : String) :
    (l.dllMap.erase fileName).lookup other ≠ some h := by
  intro hother
  have hcount := countP_erase (fun e => e.2.lib = h.lib) hm
  rw [← hs.refs_eq, hrefs] at hcount
  have hpos : 0 < (l.dllMap.erase fileName).entries.countP fun e => e.2.lib = h.lib :=
    List.countP_pos_iff.mpr ⟨_, lookup_eq_some.mp hother, by simp⟩
  simp only [decide_true, one_true] at hcount
  omega

/-- What is loaded under another name, or is another mapping, stays. -/
theorem Sound.loaded_of_closed {h' : Handle} (hs : Sound libs l)
    (hm : l.dllMap.lookup fileName = some h) (hloaded : l.Loaded h')
    (hkept : h' ≠ h ∨ l.refs h.lib ≠ 1) :
    ∃ other, (l.dllMap.erase fileName).lookup other = some h' := by
  by_cases heq : h' = h
  · subst heq
    exact hs.loaded_erase hm (hkept.resolve_left fun hne => hne rfl)
  · obtain ⟨other, hother⟩ := hloaded
    refine ⟨other, ?_⟩
    rw [AList.lookup_erase_ne, hother]
    rintro rfl
    exact heq (Option.some.inj (hother.symm.trans hm))

/-- A new entry of the table leaves the others. -/
theorem Loader.Loaded.insert {h' : Handle} (hloaded : l.Loaded h') (hnew : fileName ∉ l.dllMap) :
    ∃ other, (l.dllMap.insert fileName h).lookup other = some h' := by
  obtain ⟨other, hother⟩ := hloaded
  refine ⟨other, lookup_insert_eq_some.mpr (.inr ⟨?_, hother⟩)⟩
  rintro rfl
  exact hnew (AList.lookup_isSome.mp (by simp [hother]))

end Table

/-! ### What the calls do -/

section Calls
variable {libs : Libraries} {l l' : Loader} {fileName : String} {h : Handle}

/-- What an opening does: nothing, one more handle, or a new mapping. -/
inductive Loads (l : Loader) (fileName : String) :
    Option ℕ → Loader → Option Handle → Prop where
  | known {found : Option ℕ} (hold : fileName ∈ l.dllMap) : Loads l fileName found l none
  | again (lib : ℕ) (hnew : fileName ∉ l.dllMap) (hmapped : l.mapped lib = true) :
    Loads l fileName (some lib) { l with
      refs := Function.update l.refs lib (l.refs lib + 1)
      dllMap := l.dllMap.insert fileName ⟨lib, l.generations lib⟩ } none
  | maps (lib : ℕ) (hnew : fileName ∉ l.dllMap) (hmapped : l.mapped lib = false) :
    Loads l fileName (some lib)
      { refs := Function.update l.refs lib (l.refs lib + 1)
        generations := Function.update l.generations lib (l.generations lib + 1)
        mapped := Function.update l.mapped lib true
        dllMap := l.dllMap.insert fileName ⟨lib, l.generations lib + 1⟩ }
      (some ⟨lib, l.generations lib + 1⟩)

theorem load_cases {found : Option ℕ} {new : Option Handle}
    (hst : l.load fileName found = .ok (l', new)) : Loads l fileName found l' new := by
  unfold Loader.load at hst
  split_ifs at hst with hmem
  · obtain ⟨rfl, rfl⟩ := Prod.mk.inj (Except.ok.inj hst)
    exact .known hmem
  · cases found with
    | none => cases hst
    | some lib =>
      simp only [Loader.dlopen] at hst
      split_ifs at hst with hmapped
      · obtain ⟨rfl, rfl⟩ := Prod.mk.inj (Except.ok.inj hst)
        exact .again lib hmem hmapped
      · obtain ⟨rfl, rfl⟩ := Prod.mk.inj (Except.ok.inj hst)
        exact .maps lib hmem (Bool.not_eq_true _ ▸ hmapped)

theorem mapped_of_load {found : Option ℕ} (hst : l.load fileName found = .ok (l', some h)) :
    l'.Mapped h := by
  cases load_cases hst with
  | maps lib hnew hmapped => simp [Loader.Mapped]

theorem Loader.load_eq_error {found : Option ℕ} :
    (∃ what, l.load fileName found = .error what) ↔ fileName ∉ l.dllMap ∧ found = none := by
  unfold Loader.load
  split_ifs with hmem
  · simp [hmem]
  · cases found <;> simp [hmem]

theorem Loader.mem_load {found : Option ℕ} {new : Option Handle}
    (hst : l.load fileName found = .ok (l', new)) (other : String) :
    other ∈ l'.dllMap ↔ other = fileName ∨ other ∈ l.dllMap := by
  cases load_cases hst with
  | known hold => exact ⟨.inr, fun ho => ho.elim (fun he => he ▸ hold) id⟩
  | again | maps => exact AList.mem_insert _

theorem generations_load {found : Option ℕ} {new : Option Handle}
    (hl : Loads l fileName found l' new) (lib : ℕ) : l.generations lib ≤ l'.generations lib := by
  cases hl with
  | known | again => exact Nat.le_refl _
  | maps lib' hnew hmapped =>
    by_cases hlib : lib = lib'
    · simp [hlib]
    · simp [hlib]

/-- An entry more in the table, with its handle. -/
theorem Sound.count_insert (hs : Sound libs l) (hnew : fileName ∉ l.dllMap) (lib : ℕ) :
    Function.update l.refs h.lib (l.refs h.lib + 1) lib =
      (l.dllMap.insert fileName h).entries.countP fun e => e.2.lib = lib := by
  rw [AList.entries_insert_of_notMem hnew, List.countP_cons, ← hs.refs_eq]
  by_cases hlib : lib = h.lib
  · simp [hlib]
  · simp [hlib, Ne.symm hlib]

theorem Sound.loads {found : Option ℕ} {new : Option Handle} (hs : Sound libs l)
    (hl : Loads l fileName found l' new) : Sound libs l' := by
  cases hl with
  | known => exact hs
  | again lib hnew hmapped =>
    constructor
    case refs_eq => exact hs.count_insert (h := ⟨lib, l.generations lib⟩) hnew
    case generation_eq =>
      intro other h' hm
      rcases lookup_insert_eq_some.mp hm with ⟨-, rfl⟩ | ⟨-, hold⟩
      · rfl
      · exact hs.generation_eq other h' hold
    case mapped_of_refs =>
      intro lib' hpos
      by_cases hlib : lib' = lib
      · exact hlib ▸ hmapped
      · exact hs.mapped_of_refs lib' (by simpa [hlib] using hpos)
    case unmapped =>
      intro lib' hrefs hun
      by_cases hlib : lib' = lib
      · simp [hlib] at hrefs
      · exact hs.unmapped lib' (by simpa [hlib] using hrefs) hun
  | maps lib hnew hmapped =>
    constructor
    case refs_eq => exact hs.count_insert (h := ⟨lib, l.generations lib + 1⟩) hnew
    case generation_eq =>
      intro other h' hm
      rcases lookup_insert_eq_some.mp hm with ⟨-, rfl⟩ | ⟨-, hold⟩
      · simp
      · have hother : h'.lib ≠ lib := by
          rintro rfl
          rw [hs.mapped_of_refs _ (hs.refs_pos hold)] at hmapped
          cases hmapped
        simpa [hother] using hs.generation_eq other h' hold
    case mapped_of_refs =>
      intro lib' hpos
      by_cases hlib : lib' = lib
      · simp [hlib]
      · simpa [hlib] using hs.mapped_of_refs lib' (by simpa [hlib] using hpos)
    case unmapped =>
      intro lib' hrefs hun
      by_cases hlib : lib' = lib
      · simp [hlib] at hrefs
      · simpa [hlib] using hs.unmapped lib' (by simpa [hlib] using hrefs) hun

theorem unload_eq (hm : l.dllMap.lookup fileName = some h) :
    l.unload libs fileName =
      .ok { l.dlclose libs h with dllMap := l.dllMap.erase fileName } := by
  rw [Loader.unload, hm]
  rfl

theorem Sound.unload (hs : Sound libs l) (hm : l.dllMap.lookup fileName = some h) :
    Sound libs { l.dlclose libs h with dllMap := l.dllMap.erase fileName } := by
  have hpos := hs.refs_pos hm
  constructor
  case refs_eq =>
    intro lib
    have hcount := countP_erase (fun e => e.2.lib = lib) hm
    rw [← hs.refs_eq] at hcount
    change Function.update l.refs h.lib (l.refs h.lib - 1) lib =
      (l.dllMap.erase fileName).entries.countP fun e => e.2.lib = lib
    by_cases hlib : lib = h.lib
    · subst hlib
      simp only [decide_true, one_true] at hcount
      rw [Function.update_self]
      omega
    · simp only [Ne.symm hlib, decide_false, one_false] at hcount
      rw [Function.update_of_ne hlib]
      omega
  case generation_eq =>
    intro other h' hm'
    have hne : other ≠ fileName := by
      rintro rfl
      rw [AList.lookup_erase] at hm'
      cases hm'
    rw [AList.lookup_erase_ne hne] at hm'
    exact hs.generation_eq other h' hm'
  case mapped_of_refs =>
    intro lib hleft
    by_cases hlib : lib = h.lib
    · subst hlib
      have hrefs : l.refs h.lib ≠ 1 := by
        simp only [Loader.dlclose, Function.update_self] at hleft
        omega
      simpa [Loader.dlclose, hrefs] using hs.mapped_of_refs h.lib hpos
    · have hmapped := hs.mapped_of_refs lib (by simpa [Loader.dlclose, hlib] using hleft)
      simp only [Loader.dlclose]
      split_ifs
      · simpa [hlib] using hmapped
      · exact hmapped
  case unmapped =>
    intro lib hrefs hun
    by_cases hlib : lib = h.lib
    · subst hlib
      have hone : l.refs h.lib = 1 := by
        simp only [Loader.dlclose, Function.update_self] at hrefs
        omega
      simp [Loader.dlclose, hone, hun]
    · have hmapped := hs.unmapped lib (by simpa [Loader.dlclose, hlib] using hrefs) hun
      simp only [Loader.dlclose]
      split_ifs
      · simpa [hlib] using hmapped
      · exact hmapped

end Calls

/-! ### The end of the loader -/

section End
variable {libs : Libraries} {l : Loader} {entries : List (Σ _ : String, Handle)} {lib : ℕ}

theorem dlclose_refs (h : Handle) :
    (l.dlclose libs h).refs lib = l.refs lib - one (decide (h.lib = lib)) := by
  by_cases hlib : lib = h.lib
  · simp [Loader.dlclose, hlib]
  · simp [Loader.dlclose, hlib, Ne.symm hlib]

theorem dlclose_mapped (h : Handle) :
    (l.dlclose libs h).mapped lib =
      if h.lib = lib ∧ l.refs lib = 1 ∧ libs.unmaps lib = true then false else l.mapped lib := by
  by_cases hlib : lib = h.lib
  · subst hlib
    simp only [Loader.dlclose, true_and]
    split_ifs
    · simp
    · rfl
  · simp only [Loader.dlclose, Ne.symm hlib, false_and, if_false]
    split_ifs
    · simp [hlib]
    · rfl

theorem closeAll_refs :
    (l.closeAll libs entries).refs lib = l.refs lib - entries.countP fun e => e.2.lib = lib := by
  induction entries generalizing l with
  | nil => rfl
  | cons e entries ih =>
    calc (l.closeAll libs (e :: entries)).refs lib
        = ((l.dlclose libs e.2).closeAll libs entries).refs lib := rfl
      _ = l.refs lib - (e :: entries).countP fun e => e.2.lib = lib := by
          rw [ih, dlclose_refs, List.countP_cons, Nat.sub_sub, Nat.add_comm]
          rfl

/-- A library that asks to stay is not unmapped. -/
theorem closeAll_stays (hstays : libs.unmaps lib = false) :
    (l.closeAll libs entries).mapped lib = l.mapped lib := by
  induction entries generalizing l with
  | nil => rfl
  | cons e entries ih =>
    calc (l.closeAll libs (e :: entries)).mapped lib
        = ((l.dlclose libs e.2).closeAll libs entries).mapped lib := rfl
      _ = l.mapped lib := by simp [ih, dlclose_mapped, hstays]

/-- Any other is, with its last handle. -/
theorem closeAll_unmaps (hun : libs.unmaps lib = true)
    (hcount : l.refs lib = entries.countP fun e => e.2.lib = lib)
    (hidle : l.refs lib = 0 → l.mapped lib = false) :
    (l.closeAll libs entries).mapped lib = false := by
  induction entries generalizing l with
  | nil => exact hidle hcount
  | cons e entries ih =>
    rw [List.countP_cons] at hcount
    apply ih (l := l.dlclose libs e.2)
    · rw [dlclose_refs, hcount]
      cases hlib : decide (e.2.lib = lib) <;> simp
    · intro hleft
      rw [dlclose_mapped]
      split_ifs with hlast
      · rfl
      · rw [dlclose_refs] at hleft
        by_cases hlib : e.2.lib = lib
        · refine absurd ⟨hlib, ?_, hun⟩ hlast
          simp only [hlib, decide_true, one_true, if_true] at hleft hcount
          omega
        · exact hidle (by simpa [hlib] using hleft)

/-- The handles that are out are one for each file name, each is given back once, and of the
libraries those that ask to stay are left. -/
theorem Sound.destroy (hs : Sound libs l) :
    (∀ front e back, l.dllMap.entries = front ++ e :: back →
        0 < (l.closeAll libs front).refs e.2.lib) ∧
      (l.destroy libs).refs lib = 0 ∧
      (l.destroy libs).mapped lib = (l.mapped lib && !libs.unmaps lib) := by
  refine ⟨?_, ?_, ?_⟩
  · intro front e back hentries
    rw [closeAll_refs, hs.refs_eq, hentries]
    simp only [List.countP_append, List.countP_cons, decide_true, if_true]
    omega
  · rw [Loader.destroy, closeAll_refs, hs.refs_eq]
    exact Nat.sub_self _
  · cases hun : libs.unmaps lib with
    | true =>
      rw [Loader.destroy, closeAll_unmaps hun (hs.refs_eq lib) fun h => hs.unmapped lib h hun]
      simp
    | false =>
      rw [Loader.destroy, closeAll_stays hun]
      simp

end End

end IoTDrive.Framework.Plugins
