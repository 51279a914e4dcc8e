import Leann.Diagnosis

/-!
# What `--repair` takes for residue

A build names what it leaves behind by a target, a marker and a token of
hexadecimal digits. A diagnosis asks only for the target and the marker, so
it may remove a file that no build left behind, and even the live index of
another prefix.
-/

namespace Leann.Residue

open Effects Exceptions ArtifactPublisher Host BuildProgram Doctor Histories Diagnosis
open BuildLocks hiding World building ofLocks

/-- What `unique_token` prints. -/
def IsToken (token : Text) : Prop := token≠[] ∧ ∀ byte∈token,IsHexDigit byte

/-- What `unique_adjacent_path` makes of a target. -/
def Adjacent (target path : Text) : Prop :=
  ∃ token,IsToken token ∧ (path=target++".tmp."++token ∨ path=target++".bak."++token)

/-- What a build at a prefix may leave behind. -/
def LeftBehind (stem path : Text) : Prop :=
  Adjacent (indexFileFromPrefix stem) path ∨ Adjacent (documentsFileFromPrefix stem) path

/-- A target that ends in no digit is adjacent to nothing. -/
theorem adjacent_last {target path : Text} {last : UInt8} (adjacent : Adjacent target path)
    (h : [last]<:+path) : IsHexDigit last := by
  obtain ⟨token,⟨hne,hdigits⟩,hpath⟩ := adjacent
  have hends : token<:+path := by
    rcases hpath with rfl|rfl
    · exact List.suffix_append _ _
    · exact List.suffix_append _ _
  have hpath' : path≠[] := fun hp => hne (List.suffix_nil.mp (hp ▸ hends))
  have hlast : last=path.getLast hpath' := last_of_suffix h (List.cons_ne_nil _ _) hpath'
  rw [hlast,←last_of_suffix hends hne hpath']
  exact hdigits _ (List.getLast_mem hne)

/-- No build leaves a live file behind. -/
theorem residue_spares {stem path : Text} (residue : LeftBehind stem path) (other : Text) :
    path≠indexFileFromPrefix other ∧ path≠documentsFileFromPrefix other := by
  have hdigit : ∀ {last : UInt8},[last]<:+path → IsHexDigit last := by
    intro last h
    rcases residue with hr|hr
    · exact adjacent_last hr h
    · exact adjacent_last hr h
  obtain ⟨stem',hindex,hdocuments⟩ := files_stem other
  rw [hindex,hdocuments]
  constructor
  · rintro rfl
    have hn : [110]<:+stem'++text ".leann" := by
      exact List.IsSuffix.trans (by decide) (List.suffix_append _ _)
    have hbad := hdigit hn
    revert hbad
    unfold IsHexDigit
    decide
  · rintro rfl
    have hs : [115]<:+stem'++text ".docs" := by
      exact List.IsSuffix.trans (by decide) (List.suffix_append _ _)
    have hbad := hdigit hs
    revert hbad
    unfold IsHexDigit
    decide

section Removals

/-- The output changes nothing. -/
theorem commandDoctor_remains (circumstances : Circumstances) (format : OutputFormat)
    (arguments : DoctorArguments) (stem : Text) :
    (circumstances.eval (commandDoctor format arguments stem).run circumstances.machine).2=
      (circumstances.eval (doctor arguments (indexFileFromPrefix stem)
        (documentsFileFromPrefix stem)).run circumstances.machine).2 := by
  unfold commandDoctor
  rw [eval_throwing]
  rcases circumstances.eval _ circumstances.machine with ⟨fault|report,after⟩
  · rfl
  · dsimp only
    rw [eval_throwing]
    cases printReport format arguments report with
    | error fault => rfl
    | ok output => rfl

/-- The files that a diagnosis removes: they were there and are gone. -/
def Removed (circumstances : Circumstances) (format : OutputFormat) (arguments : DoctorArguments)
    (stem path : Text) : Prop :=
  (circumstances.machine.disk path).isSome ∧
    (circumstances.eval (commandDoctor format arguments stem).run circumstances.machine).2.disk path=none

/-- Whether `--repair` gets to removing files. -/
def Repairs (circumstances : Circumstances) (stem : Text) : Prop :=
  circumstances.locked (indexFileFromPrefix stem) (documentsFileFromPrefix stem)=false ∧
    circumstances.scans (indexFileFromPrefix stem)=true ∧
    circumstances.unreadable (indexFileFromPrefix stem)=none

/-- The files beside the pair that it takes for residue by the marker behind
the name of a target: temporaries, and backups when the live pair validates. -/
def Marked (circumstances : Circumstances) (stem path : Text) : Prop :=
  path∈circumstances.files ∧ parentPath path=parentPath (indexFileFromPrefix stem) ∧
    (Temporary (indexFileFromPrefix stem) (documentsFileFromPrefix stem) path ∨
      circumstances.validates (indexFileFromPrefix stem) (documentsFileFromPrefix stem)=true ∧
        Backup (indexFileFromPrefix stem) (documentsFileFromPrefix stem) path)

/-- The targets of a prefix keep apart from each other and what is beside them. -/
theorem separate_targets (stem : Text) :
    Separate (indexFileFromPrefix stem) (documentsFileFromPrefix stem) ∧
      indexFileFromPrefix stem≠documentsFileFromPrefix stem := by
  obtain ⟨stem',hindex,hdocuments⟩ := files_stem stem
  rw [hindex,hdocuments]
  exact ⟨separate_files stem',fun h => absurd (List.append_cancel_left h) (by decide)⟩

/-- A refusal finds a lock. -/
theorem locked_of_refuses {circumstances : Circumstances} {arguments : DoctorArguments}
    {index documents : Text} (h : circumstances.refuses arguments index documents=true) :
    circumstances.locked index documents=true := by
  have hany := ((Bool.and_eq_true _ _).mp h).2
  obtain ⟨lock,hl,hpresent⟩ := List.any_eq_true.mp hany
  exact List.any_eq_true.mpr ⟨lock,hl,((Bool.and_eq_true _ _).mp hpresent).1⟩

/-- The paths of what goes. -/
theorem mem_victims {circumstances : Circumstances} {locked valid : Bool} {leftovers : List Leftover}
    {path : Text} : path∈(circumstances.victims locked valid leftovers).map Prod.fst ↔
      ∃ leftover∈leftovers,circumstances.removes locked valid leftover=true ∧ leftover.path=path := by
  unfold Circumstances.victims
  simp [and_assoc]

/-- A leftover goes when nothing is locked, its kind allows it and nothing fails. -/
theorem removes_iff {circumstances : Circumstances} {locked valid : Bool} {leftover : Leftover} :
    circumstances.removes locked valid leftover=true ↔ locked=false ∧
      (leftover.kind=.temporary ∨ valid=true) ∧ circumstances.fault (.remove leftover.path)=none := by
  unfold Circumstances.removes condemned
  simp [and_assoc]

/-- What goes is marked, and can be removed. -/
theorem mem_victims_iff (circumstances : Circumstances) (stem path : Text) :
    path∈(circumstances.victims
        (circumstances.locked (indexFileFromPrefix stem) (documentsFileFromPrefix stem))
        (circumstances.validates (indexFileFromPrefix stem) (documentsFileFromPrefix stem))
        (circumstances.leftovers (indexFileFromPrefix stem) (documentsFileFromPrefix stem))).map Prod.fst ↔
      circumstances.locked (indexFileFromPrefix stem) (documentsFileFromPrefix stem)=false ∧
        circumstances.scans (indexFileFromPrefix stem)=true ∧ Marked circumstances stem path ∧
          circumstances.fault (.remove path)=none := by
  obtain ⟨separate,-⟩ := separate_targets stem
  rw [mem_victims]
  constructor
  · rintro ⟨leftover,hl,hr,rfl⟩
    obtain ⟨hlocked,hkind,hfault⟩ := removes_iff.mp hr
    obtain ⟨hscans,hfile,hparent,hnamed⟩ := (mem_beside separate _ _).mp (mem_leftovers hl)
    refine ⟨hlocked,hscans,⟨hfile,hparent,?_⟩,hfault⟩
    cases hk : leftover.kind with
    | temporary =>
      rw [hk] at hnamed
      exact .inl hnamed
    | backup =>
      rw [hk] at hnamed hkind
      exact .inr ⟨hkind.resolve_left (by decide),hnamed⟩
  · rintro ⟨hlocked,hscans,⟨hfile,hparent,hmarked⟩,hfault⟩
    have hgoes : ∀ kind,(kind=LeftoverKind.temporary ∨
        circumstances.validates (indexFileFromPrefix stem) (documentsFileFromPrefix stem)=true) →
        {kind := kind,path := path}∈circumstances.beside (indexFileFromPrefix stem)
          (documentsFileFromPrefix stem) → ∃ leftover∈circumstances.leftovers (indexFileFromPrefix stem)
            (documentsFileFromPrefix stem),circumstances.removes
              (circumstances.locked (indexFileFromPrefix stem) (documentsFileFromPrefix stem))
              (circumstances.validates (indexFileFromPrefix stem) (documentsFileFromPrefix stem))
              leftover=true ∧ leftover.path=path := by
      intro kind hkind hbeside
      obtain ⟨leftover,hl,hk,hp⟩ := beside_leftovers hbeside
      exact ⟨leftover,hl,removes_iff.mpr ⟨hlocked,hk ▸ hkind,hp ▸ hfault⟩,hp⟩
    rcases hmarked with ht|⟨hvalid,hb⟩
    · exact hgoes .temporary (.inl rfl) ((mem_beside separate _ _).mpr ⟨hscans,hfile,hparent,ht⟩)
    · exact hgoes .backup (.inr hvalid) ((mem_beside separate _ _).mpr ⟨hscans,hfile,hparent,hb⟩)

/-- What a diagnosis removes is marked and can be removed. -/
theorem removed_iff (circumstances : Circumstances) (format : OutputFormat) (forceUnlock : Bool)
    (stem path : Text) :
    Removed circumstances format ⟨true,forceUnlock⟩ stem path ↔ Repairs circumstances stem ∧
      Marked circumstances stem path ∧ circumstances.fault (.remove path)=none := by
  obtain ⟨-,different⟩ := separate_targets stem
  have hvictims := mem_victims_iff circumstances stem path
  unfold Removed Repairs
  rw [commandDoctor_remains]
  by_cases hthrows : (circumstances.unreadable (indexFileFromPrefix stem)).isSome ∨
      circumstances.refuses ⟨true,forceUnlock⟩ (indexFileFromPrefix stem)
        (documentsFileFromPrefix stem)=true
  · obtain ⟨fault,heval⟩ := doctor_throws hthrows
    rw [heval]
    constructor
    · rintro ⟨hsome,hnone⟩
      rw [hnone] at hsome
      cases hsome
    · rintro ⟨⟨hlocked,-,hreadable⟩,-⟩
      rcases hthrows with h|h
      · rw [hreadable] at h
        cases h
      · rw [locked_of_refuses h] at hlocked
        cases hlocked
  · obtain ⟨hreadable,hadmitted⟩ := not_or.mp hthrows
    rw [Option.not_isSome_iff_eq_none] at hreadable
    rw [Bool.not_eq_true] at hadmitted
    obtain ⟨report,-,heval⟩ := doctor_returns different hreadable hadmitted
    rw [heval]
    have hgone : (circumstances.remains ⟨true,forceUnlock⟩ (indexFileFromPrefix stem)
        (documentsFileFromPrefix stem)).disk path=
          if path∈(circumstances.victims
            (circumstances.locked (indexFileFromPrefix stem) (documentsFileFromPrefix stem))
            (circumstances.validates (indexFileFromPrefix stem) (documentsFileFromPrefix stem))
            (circumstances.leftovers (indexFileFromPrefix stem) (documentsFileFromPrefix stem))).map
              Prod.fst then none else circumstances.machine.disk path := rfl
    dsimp only
    rw [hgone]
    constructor
    · rintro ⟨hsome,hnone⟩
      split at hnone
      · rename_i hm
        obtain ⟨hlocked,hscans,hmarked,hfault⟩ := hvictims.mp hm
        exact ⟨⟨hlocked,hscans,hreadable⟩,hmarked,hfault⟩
      · rw [hnone] at hsome
        cases hsome
    · rintro ⟨⟨hlocked,hscans,-⟩,hmarked,hfault⟩
      refine ⟨(circumstances.listed path).mp hmarked.1,?_⟩
      rw [if_pos (hvictims.mpr ⟨hlocked,hscans,hmarked,hfault⟩)]

/-- What follows a target and a marker in the name of residue is a token. -/
theorem leftBehind_iff {stem target marker rest : Text}
    (ht : target=indexFileFromPrefix stem ∨ target=documentsFileFromPrefix stem)
    (hm : marker=".tmp." ∨ marker=".bak.") :
    LeftBehind stem (target++marker++rest) ↔ IsToken rest := by
  have hindex : text ".leann"=[46,108,101,97,110,110] := by decide
  have hdocuments : text ".docs"=[46,100,111,99,115] := by decide
  have htemporary : text ".tmp."=[46,116,109,112,46] := by decide
  have hbackup : text ".bak."=[46,98,97,107,46] := by decide
  constructor
  · obtain ⟨stem',hi,hd⟩ := files_stem stem
    rw [LeftBehind,Adjacent,Adjacent]
    rw [hi,hd] at ht ⊢
    rintro (⟨token,hall,h|h⟩|⟨token,hall,h|h⟩) <;> rcases ht with rfl|rfl <;> rcases hm with rfl|rfl <;>
      simp [hindex,hdocuments,htemporary,hbackup,List.append_assoc] at h <;>
      exact h ▸ hall
  · intro h
    have hadjacent : Adjacent target (target++marker++rest) := by
      rcases hm with rfl|rfl
      · exact ⟨rest,h,.inl rfl⟩
      · exact ⟨rest,h,.inr rfl⟩
    rcases ht with rfl|rfl
    · exact .inl hadjacent
    · exact .inr hadjacent

/-- The files that are looked for by their names, that is those of the
directory that go on with a marker behind the name of a target, have a token
behind the marker, except backups beside a pair that does not validate and
files that cannot be removed. -/
def Tokened (circumstances : Circumstances) (stem : Text) : Prop :=
  ∀ target marker rest,(target=indexFileFromPrefix stem ∨ target=documentsFileFromPrefix stem) →
    (marker=text ".tmp." ∨ marker=text ".bak." ∧
      circumstances.validates (indexFileFromPrefix stem) (documentsFileFromPrefix stem)=true) →
    target++marker++rest∈circumstances.files →
    parentPath (target++marker++rest)=parentPath (indexFileFromPrefix stem) →
    circumstances.fault (.remove (target++marker++rest))=none → IsToken rest

/-- `--repair` removes nothing but residue, and no live file of any prefix, if
and only if what it looks for has tokens behind the markers, unless a lock or
the directory keeps it from removing anything. -/
theorem repair_removes_residue_iff (circumstances : Circumstances) (format : OutputFormat)
    (forceUnlock : Bool) (stem : Text) :
    (∀ path,Removed circumstances format ⟨true,forceUnlock⟩ stem path → LeftBehind stem path ∧
      ∀ other,path≠indexFileFromPrefix other ∧ path≠documentsFileFromPrefix other) ↔
    (Repairs circumstances stem → Tokened circumstances stem) := by
  constructor
  · intro h repairs target marker rest htarget hmarker hfile hparent hfault
    have hnames : ∀ marker : Text,target++marker++rest=indexFileFromPrefix stem++marker++rest ∨
        target++marker++rest=documentsFileFromPrefix stem++marker++rest := fun marker =>
      htarget.imp (congrArg (fun name => name++marker++rest)) (congrArg (fun name => name++marker++rest))
    have hmarked : Marked circumstances stem (target++marker++rest) := by
      refine ⟨hfile,hparent,?_⟩
      rcases hmarker with rfl|⟨rfl,hvalid⟩
      · exact .inl ⟨rest,hnames _⟩
      · exact .inr ⟨hvalid,rest,hnames _⟩
    have hgone := (removed_iff circumstances format forceUnlock stem _).mpr ⟨repairs,hmarked,hfault⟩
    exact (leftBehind_iff htarget (hmarker.imp_right And.left)).mp (h _ hgone).1
  · intro h path removed
    obtain ⟨repairs,⟨hfile,hparent,hmarked⟩,hfault⟩ :=
      (removed_iff circumstances format forceUnlock stem path).mp removed
    have htokens := h repairs
    have hresidue : LeftBehind stem path := by
      rcases hmarked with ⟨rest,hp|hp⟩|⟨hvalid,rest,hp|hp⟩
      · subst hp
        exact (leftBehind_iff (.inl rfl) (.inl rfl)).mpr
          (htokens _ _ rest (.inl rfl) (.inl rfl) hfile hparent hfault)
      · subst hp
        exact (leftBehind_iff (.inr rfl) (.inl rfl)).mpr
          (htokens _ _ rest (.inr rfl) (.inl rfl) hfile hparent hfault)
      · subst hp
        exact (leftBehind_iff (.inl rfl) (.inr rfl)).mpr
          (htokens _ _ rest (.inl rfl) (.inr ⟨rfl,hvalid⟩) hfile hparent hfault)
      · subst hp
        exact (leftBehind_iff (.inr rfl) (.inr rfl)).mpr
          (htokens _ _ rest (.inr rfl) (.inr ⟨rfl,hvalid⟩) hfile hparent hfault)
    exact ⟨hresidue,fun other => residue_spares hresidue other⟩

end Removals

section Control

/-- A directory that holds the live index of a prefix whose name extends that of another. -/
def crowded : Circumstances where
  machine := ⟨fun path => if path=text "a.leann.tmp.b.leann" then some ⟨[1],[],0⟩ else none,fun _ => none⟩
  files := [text "a.leann.tmp.b.leann"]
  distinct := List.nodup_singleton _
  listed := by
    intro path
    rw [List.mem_singleton]
    dsimp only
    split
    · rename_i h
      exact ⟨fun _ => rfl,fun _ => h⟩
    · rename_i h
      exact ⟨fun hp => absurd hp h,fun hs => nomatch hs⟩
  fault _ := none
  host := []
  runs _ := false

/-- Repairing the other prefix removes it. -/
theorem repair_removes_live_index :
    ¬∀ (circumstances : Circumstances) (format : OutputFormat) (forceUnlock : Bool) (stem path : Text),
      Removed circumstances format ⟨true,forceUnlock⟩ stem path → LeftBehind stem path ∧
        ∀ other,path≠indexFileFromPrefix other ∧ path≠documentsFileFromPrefix other := by
  intro h
  have hremoved : Removed crowded .text ⟨true,false⟩ "a" (indexFileFromPrefix "a.leann.tmp.b") := by
    unfold Removed
    decide +kernel
  exact ((h crowded .text false "a" _ hremoved).2 "a.leann.tmp.b").1 rfl

end Control

end Leann.Residue
