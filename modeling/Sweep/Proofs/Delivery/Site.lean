import Sweep.Proofs.Delivery.Leaf
import Sweep.Proofs.Except
import Sweep.Proofs.Files.Directories

/-!
# Deliveries to a site

What one draft does to a site. A dry outlet asks whether the path names a format and notes the path;
a real one asks the same, makes the text (`Draft.text`), deposits it in the files (`deposit`), and
notes the path only then. Everything but the depositing is settled by the draft alone, and nothing
but the depositing touches the files; what it can do to them is `deposit_cases`.
-/

set_option autoImplicit false

namespace Sweep

/-- A fault of making the text of a document or of writing it. -/
def Fault.IsOfStoring (fault : Fault) : Prop :=
  (∃ path why, fault = .refused path why) ∨ ∃ path why, fault = .unencodable path why

/-- The site with one more path announced and recorded. -/
def Site.noted (site : Site) (path : String) : Site :=
  { site with announced := site.announced ++ [path], recorded := site.recorded ++ [path] }

namespace Delivery

/-- The text that a draft is stored as. -/
def Draft.text (d : Draft) : Except Fault String :=
  match FileFormat.ofPath d.path with
  | .error fault => .error fault
  | .ok format => (format.encode d.document).mapError (.unencodable d.path)

/-- Write a file, over what was there. -/
def overwrite (files : Files.Tree) (path text : String) : Outcome × Files.Tree :=
  match files.write path text with
  | .ok files => (.ok (), files)
  | .error why => (.error (.refused path why), files)

/-- Write a file, and before it make the directories that it lies in. -/
def deposit (files : Files.Tree) (path text : String) : Outcome × Files.Tree :=
  match Files.Path.parent? path with
  | none | some "" => overwrite files path text
  | some parent =>
    match files.makeDirectories parent with
    | (.error why, files) => (.error (.refused parent why), files)
    | (.ok (), files) => overwrite files path text

theorem place_eq_deposit (path text : String) (site : Site) :
    FileFormat.place Site.storage path text site =
      ((deposit site.files path text).1,
        { site with files := (deposit site.files path text).2 }) := by
  rw [FileFormat.place, deposit]
  cases hp : Files.Path.parent? path with
  | none =>
    simp only [overwrite, bind, StateT.bind, Site.storage]
    cases site.files.write path text <;> rfl
  | some parent =>
    by_cases he : parent = ""
    · rw [he]
      simp only [overwrite, bind, StateT.bind, Site.storage]
      cases site.files.write path text <;> rfl
    · simp only [overwrite, bind, StateT.bind, Site.storage]
      cases hm : site.files.makeDirectories parent with
      | mk made files =>
        cases made with
        | error why => rfl
        | ok done =>
          simp only [StateT.bind]
          cases files.write path text <;> rfl

/-! ## One draft -/

/-- What a dry outlet does with a draft. -/
theorem handOver_dry (d : Draft) (site : Site) :
    handOver (Site.outlet true) d site =
      match FileFormat.ofPath d.path with
      | .error fault => (.error fault, site)
      | .ok _ => (.ok (), site.noted d.path) := by
  have hs : (Site.outlet true).save = drySave := rfl
  simp only [handOver, hs, drySave, bind, StateT.bind]
  cases FileFormat.ofPath d.path <;> rfl

/-- What a real outlet does with a draft. -/
theorem handOver_real (d : Draft) (site : Site) :
    handOver (Site.outlet false) d site =
      match d.text with
      | .error fault => (.error fault, site)
      | .ok text =>
        match deposit site.files d.path text with
        | (.error fault, files) => (.error fault, { site with files })
        | (.ok (), files) => (.ok (), ({ site with files } : Site).noted d.path) := by
  have hs : (Site.outlet false).save = FileFormat.store Site.storage := rfl
  simp only [handOver, hs, FileFormat.store, Draft.text, bind, StateT.bind]
  cases FileFormat.ofPath d.path with
  | error fault => rfl
  | ok format =>
    dsimp only
    cases format.encode d.document with
    | error why => rfl
    | ok text =>
      simp only [place_eq_deposit, Except.mapError_ok]
      cases deposit site.files d.path text with
      | mk outcome files => cases outcome <;> rfl

/-! ## One leaf -/

section Visit

variable {plan : Plan} {leaf : Document} {d : Draft} {fault : Fault}

theorem visit_of_error {m : Type → Type} [Monad m] (h : draft plan leaf = .error fault)
    (outlet : Outlet m) :
    visit plan outlet leaf = pure (.error fault) := by
  rw [visit, h]

theorem visit_of_ok {m : Type → Type} [Monad m] (h : draft plan leaf = .ok d) (outlet : Outlet m) :
    visit plan outlet leaf = handOver outlet d := by
  rw [visit, h]

end Visit

/-- Nothing is stored at a path that names no format. -/
theorem Draft.text_of_error {d : Draft} {fault : Fault}
    (h : FileFormat.ofPath d.path = .error fault) :
    d.text = .error fault := by
  rw [text, h]

theorem handOver_of_error {d : Draft} {fault : Fault} (h : FileFormat.ofPath d.path = .error fault)
    (dry : Bool) (site : Site) : handOver (Site.outlet dry) d site = (.error fault, site) := by
  cases dry with
  | true => simp only [handOver_dry, h]
  | false => simp only [handOver_real, Draft.text_of_error h]

theorem Draft.isOfStoring_of_text {d : Draft} {format : FileFormat} {fault : Fault}
    (h : FileFormat.ofPath d.path = .ok format) (ht : d.text = .error fault) :
    fault.IsOfStoring := by
  rw [text, h] at ht
  dsimp only at ht
  cases he : format.encode d.document with
  | ok text =>
    rw [he] at ht
    exact absurd ht (by simp [Except.mapError_ok])
  | error why =>
    rw [he] at ht
    cases ht
    exact .inr ⟨_, _, rfl⟩

/-! ## Depositing -/

theorem overwrite_cases (files : Files.Tree) (path text : String) :
    (∃ why, overwrite files path text = (.error (.refused path why), files)) ∨
      ∃ written, files.write path text = .ok written ∧
        overwrite files path text = (.ok (), written) := by
  rw [overwrite]
  cases hw : files.write path text with
  | error why => exact .inl ⟨why, rfl⟩
  | ok written => exact .inr ⟨written, rfl, rfl⟩

/-- **What a deposit does**: it makes directories on the way, and then is refused or writes the
file. -/
theorem deposit_cases (files : Files.Tree) (path text : String) :
    ∃ mid, Files.Tree.Gains (Files.ancestors files.home path) files mid ∧
      ((∃ refuser why, deposit files path text = (.error (.refused refuser why), mid)) ∨
        ∃ written, mid.write path text = .ok written ∧
          deposit files path text = (.ok (), written)) := by
  have hway : ∃ mid, Files.Tree.Gains (Files.ancestors files.home path) files mid ∧
      ((∃ refuser why, deposit files path text = (.error (.refused refuser why), mid)) ∨
        deposit files path text = overwrite mid path text) := by
    rw [deposit]
    split
    · exact ⟨files, .refl _ _, .inr rfl⟩
    · exact ⟨files, .refl _ _, .inr rfl⟩
    · next parent hne hp =>
      have hg := Files.Tree.gains_makeDirectories files hp fun he => hne (he ▸ rfl)
      cases hm : files.makeDirectories parent with
      | mk made mid =>
        rw [hm] at hg
        cases made with
        | error why => exact ⟨mid, hg, .inl ⟨parent, why, rfl⟩⟩
        | ok done => exact ⟨mid, hg, .inr rfl⟩
  obtain ⟨mid, hg, h | h⟩ := hway
  · exact ⟨mid, hg, .inl h⟩
  · rw [h]
    rcases overwrite_cases mid path text with ⟨why, hw⟩ | hw
    · exact ⟨mid, hg, .inl ⟨path, why, hw⟩⟩
    · exact ⟨mid, hg, .inr hw⟩

theorem isOfStoring_of_deposit {files : Files.Tree} {path text : String} {fault : Fault}
    (h : (deposit files path text).1 = .error fault) : fault.IsOfStoring := by
  obtain ⟨mid, -, ⟨refuser, why, hd⟩ | ⟨written, -, hd⟩⟩ := deposit_cases files path text
  · rw [hd] at h
    cases h
    exact .inl ⟨refuser, why, rfl⟩
  · rw [hd] at h
    exact absurd h (by simp)

/-- A fault at a path that names a format is one of storing. -/
theorem isOfStoring_of_handOver {d : Draft} {format : FileFormat} {fault : Fault}
    (hf : FileFormat.ofPath d.path = .ok format) {dry : Bool} {site : Site}
    (h : (handOver (Site.outlet dry) d site).1 = .error fault) : fault.IsOfStoring := by
  cases dry with
  | true =>
    rw [handOver_dry, hf] at h
    cases h
  | false =>
    rw [handOver_real] at h
    cases ht : d.text with
    | error other =>
      rw [ht] at h
      cases h
      exact Draft.isOfStoring_of_text hf ht
    | ok text =>
      simp only [ht] at h
      cases hs : deposit site.files d.path text with
      | mk outcome files =>
        have hfirst : (deposit site.files d.path text).1 = outcome := by rw [hs]
        simp only [hs] at h
        cases outcome with
        | ok done => exact absurd h (by simp)
        | error other =>
          cases h
          exact isOfStoring_of_deposit hfirst

end Delivery

end Sweep
