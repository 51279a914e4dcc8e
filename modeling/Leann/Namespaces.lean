import Mathlib.Data.List.Induction
import Mathlib.Tactic.Common

/-!
# Directory trees with symbolic links

A directory is the list of names that lead to it from the root, so its parent
is unique and a file may stand in several. Following a route step by step
expands symbolic links, a limited number of them in one resolution. The
lexical reading of a route cancels names against `..` without asking the tree.
-/

namespace Leann.Namespaces

variable {Name File : Type}

/-- One element of a route. -/
inductive Step (Name : Type) where
  /-- `.`, or nothing between two separators. -/
  | stay
  /-- `..`. -/
  | up
  /-- Any other name. -/
  | into (name : Name)
  deriving DecidableEq

/-- A route, from the root or from a directory given elsewhere. -/
structure Route (Name : Type) where
  /-- Whether it starts at the root. -/
  fromRoot : Bool
  /-- Its elements in order. -/
  steps : List (Step Name)
  deriving DecidableEq

/-- The names from the root to a directory. -/
abbrev Directory (Name : Type) := List Name

/-- What a name stands for in a directory. -/
inductive Entry (Name File : Type) where
  /-- The directory whose last name it is. -/
  | directory
  /-- A file, which may have other names. -/
  | file (inode : File)
  /-- A symbolic link. -/
  | link (target : Route Name)
  deriving DecidableEq

/-- A tree. Only a directory that has an entry of its own has entries. -/
structure Tree (Name File : Type) where
  /-- The entries of each directory. -/
  entry : Directory Name → Name → Option (Entry Name File)
  /-- Nothing stands in a directory that is not there. -/
  attached : ∀ above name below,(entry (above++[name]) below).isSome →
    entry above name=some .directory

/-- Why a resolution fails. -/
inductive Fault where
  /-- A name has no entry. -/
  | missing
  /-- A file is followed by another step. -/
  | notDirectory
  /-- More links than one resolution may expand. -/
  | tooManyLinks
  deriving DecidableEq

/-- Where a resolution ends. -/
inductive Found (Name File : Type) where
  /-- At a directory. -/
  | directory (names : Directory Name)
  /-- At a file, through an entry that is no link. -/
  | file (directory : Directory Name) (name : Name) (inode : File)
  deriving DecidableEq

/-- What is found, whatever entry led to it. -/
def Found.object : Found Name File → Directory Name ⊕ File
  | .directory names => .inl names
  | .file _ _ inode => .inr inode

variable (tree : Tree Name File)

/-- Where a link or a route leads off from. -/
def Route.start (route : Route Name) (here : Directory Name) : Directory Name :=
  if route.fromRoot then [] else here

/-- Follow steps from a directory, expanding at most the given number of links.
The links left over are returned with what is found. -/
def resolve (links : ℕ) (here : Directory Name) :
    List (Step Name) → Except Fault (ℕ×Found Name File)
  | [] => .ok (links,.directory here)
  | .stay::rest => resolve links here rest
  | .up::rest => resolve links here.dropLast rest
  | .into name::rest => match tree.entry here name with
    | none => .error .missing
    | some .directory => resolve links (here++[name]) rest
    | some (.file inode) => match rest with
      | [] => .ok (links,.file here name inode)
      | _::_ => .error .notDirectory
    | some (.link target) => match links with
      | 0 => .error .tooManyLinks
      | links+1 => resolve links (target.start here) (target.steps++rest)
  termination_by steps => (links,steps.length)

/-- The resolution of further steps from where an earlier one ended. -/
def continued (steps : List (Step Name)) :
    Except Fault (ℕ×Found Name File) → Except Fault (ℕ×Found Name File)
  | .ok (links,.directory here) => resolve tree links here steps
  | .ok (links,.file here name inode) => match steps with
    | [] => .ok (links,.file here name inode)
    | _::_ => .error .notDirectory
  | .error fault => .error fault

/-- A route is followed part by part. -/
theorem resolve_append (links : ℕ) (here : Directory Name) (first second : List (Step Name)) :
    resolve tree links here (first++second)=
      continued tree second (resolve tree links here first) := by
  fun_induction resolve tree links here first with
  | case1 links here => rfl
  | case2 links here rest ih => simpa [resolve] using ih
  | case3 links here rest ih => simpa [resolve] using ih
  | case4 links here name rest hnone => simp [resolve,hnone,continued]
  | case5 links here name rest hdirectory ih => simpa [resolve,hdirectory] using ih
  | case6 links here name inode hfile =>
    cases second <;> simp [resolve,hfile,continued]
  | case7 links here name inode hfile head tail => simp [resolve,hfile,continued]
  | case8 here name rest target hlink => simp [resolve,hlink,continued]
  | case9 here name rest target hlink links ih => simpa [resolve,hlink] using ih

/-- What a resolution returns when it may expand more links. -/
def extended (more : ℕ) : Except Fault (ℕ×Found Name File) → Except Fault (ℕ×Found Name File)
  | .ok (links,found) => .ok (links+more,found)
  | .error fault => .error fault

/-- Only a resolution that ran out of links depends on their number. -/
theorem resolve_more (more links : ℕ) (here : Directory Name) (steps : List (Step Name))
    (enough : resolve tree links here steps≠.error .tooManyLinks) :
    resolve tree (links+more) here steps=extended more (resolve tree links here steps) := by
  fun_induction resolve tree links here steps with
  | case1 links here => simp [resolve,extended]
  | case2 links here rest ih => simpa [resolve] using ih enough
  | case3 links here rest ih => simpa [resolve] using ih enough
  | case4 links here name rest hnone => simp [resolve,hnone,extended]
  | case5 links here name rest hdirectory ih => simpa [resolve,hdirectory] using ih enough
  | case6 links here name inode hfile => simp [resolve,hfile,extended]
  | case7 links here name inode hfile head tail => simp [resolve,hfile,extended]
  | case8 here name rest target hlink => simp at enough
  | case9 here name rest target hlink links ih =>
    rw [Nat.succ_add]
    simpa [resolve,hlink] using ih enough

/-- Two resolutions of the same steps that do not run out of links find the
same, however many links each may expand. -/
theorem resolve_links {links more : ℕ} {here : Directory Name} {steps : List (Step Name)}
    (hfirst : resolve tree links here steps≠.error .tooManyLinks)
    (hsecond : resolve tree more here steps≠.error .tooManyLinks) :
    (resolve tree links here steps).map Prod.snd=(resolve tree more here steps).map Prod.snd := by
  have hsame (extra : ℕ) (result : Except Fault (ℕ×Found Name File)) :
      (extended extra result).map Prod.snd=result.map Prod.snd := by
    cases result <;> rfl
  rcases Nat.le_total links more with hle | hle
  · obtain ⟨extra,hextra⟩ := Nat.exists_eq_add_of_le hle
    rw [hextra,resolve_more tree extra links here steps hfirst,hsame]
  · obtain ⟨extra,hextra⟩ := Nat.exists_eq_add_of_le hle
    rw [hextra,resolve_more tree extra more here steps hsecond,hsame]

/-! ### A tree that changes -/

/-- Following the entry never leads to a directory. -/
def Blocked (here : Directory Name) (name : Name) : Prop :=
  ∀ links left names,resolve tree links here [.into name]≠.ok (left,.directory names)

/-- A missing entry leads nowhere. -/
theorem blocked_of_missing {here : Directory Name} {name : Name}
    (hmissing : tree.entry here name=none) : Blocked tree here name := by
  intro links left names
  simp [resolve,hmissing]

/-- One resolution that ends elsewhere, with links to spare, settles all. -/
theorem blocked_of_resolve {links : ℕ} {here : Directory Name} {name : Name}
    (enough : resolve tree links here [.into name]≠.error .tooManyLinks)
    (hother : ∀ left names,resolve tree links here [.into name]≠.ok (left,.directory names)) :
    Blocked tree here name := by
  intro more left names hfound
  have hsame := @resolve_links _ _ tree _ more _ _ enough (by simp [hfound])
  rw [hfound] at hsame
  cases hresult : resolve tree links here [.into name] with
  | error fault => simp [hresult,Except.map] at hsame
  | ok result =>
    have hdirectory : result.2=.directory names := by simpa [hresult,Except.map] using hsame
    exact hother result.1 names (by rw [hresult,← hdirectory])

/-- The way to a directory survives every change of entries that lead to none. -/
theorem resolve_changed {tree changed : Tree Name File} {links left : ℕ}
    {here names : Directory Name} {steps : List (Step Name)}
    (hchanged : ∀ above name,changed.entry above name=tree.entry above name ∨
      Blocked tree above name)
    (hfound : resolve tree links here steps=.ok (left,.directory names)) :
    resolve changed links here steps=.ok (left,.directory names) := by
  fun_induction resolve tree links here steps with
  | case1 links here => simpa [resolve] using hfound
  | case2 links here rest ih => simpa [resolve] using ih hfound
  | case3 links here rest ih => simpa [resolve] using ih hfound
  | case4 links here name rest hnone => simp at hfound
  | case5 links here name rest hdirectory ih =>
    rcases hchanged here name with hsame | hblocked
    · simpa [resolve,hsame,hdirectory] using ih hfound
    · exact absurd (by simp [resolve,hdirectory]) (hblocked 0 0 (here++[name]))
  | case6 links here name inode hfile => simp at hfound
  | case7 links here name inode hfile head tail => simp at hfound
  | case8 here name rest target hlink => simp at hfound
  | case9 here name rest target hlink links ih =>
    rcases hchanged here name with hsame | hblocked
    · simpa [resolve,hsame,hlink] using ih hfound
    · rw [resolve_append] at hfound
      cases hthrough : resolve tree links (target.start here) target.steps with
      | error fault => simp [hthrough,continued] at hfound
      | ok result =>
        obtain ⟨spare,found⟩ := result
        cases found with
        | directory above =>
          refine absurd ?_ (hblocked (links+1) spare above)
          simpa [resolve,hlink] using hthrough
        | file above last inode =>
          rw [hthrough] at hfound
          cases rest <;> simp [continued] at hfound

/-! ### The lexical reading -/

/-- Read steps without asking the tree. -/
def cancel (here : Directory Name) : List (Step Name) → Directory Name
  | [] => here
  | .stay::rest => cancel here rest
  | .up::rest => cancel here.dropLast rest
  | .into name::rest => cancel (here++[name]) rest

theorem cancel_append (here : Directory Name) (first second : List (Step Name)) :
    cancel here (first++second)=cancel (cancel here first) second := by
  fun_induction cancel here first with
  | case1 here => rfl
  | case2 here rest ih => simpa [cancel] using ih
  | case3 here rest ih => simpa [cancel] using ih
  | case4 here name rest ih => simpa [cancel] using ih

/-- Names alone are read as they stand. -/
theorem cancel_names (here names : Directory Name) :
    cancel here (names.map .into)=here++names := by
  induction names generalizing here with
  | nil => simp [cancel]
  | cons name names ih => simp [cancel,ih]

/-- The directory that steps lead to, absent when they lead to none. -/
def directoryAt (links : ℕ) (here : Directory Name) (steps : List (Step Name)) :
    Option (Directory Name) :=
  match resolve tree links here steps with
  | .ok (_,.directory names) => some names
  | _ => none

theorem directoryAt_eq_some {links : ℕ} {here names : Directory Name} {steps : List (Step Name)} :
    directoryAt tree links here steps=some names ↔
      ∃ left,resolve tree links here steps=.ok (left,.directory names) := by
  unfold directoryAt
  split
  · next left found hfound => simp [hfound]
  · next result hother =>
    constructor
    · intro h
      cases h
    · rintro ⟨left,hleft⟩
      exact absurd hleft (hother left names)

/-- Two routes whose first parts end alike lead to the same directory. -/
theorem directoryAt_append_congr {links more : ℕ} {here there : Directory Name}
    {first second steps others : List (Step Name)}
    (hfirst : resolve tree links here first=resolve tree more there second)
    (hrest : ∀ links here,directoryAt tree links here steps=directoryAt tree links here others) :
    directoryAt tree links here (first++steps)=directoryAt tree more there (second++others) := by
  unfold directoryAt at hrest ⊢
  rw [resolve_append,resolve_append,← hfirst]
  cases resolve tree links here first with
  | error fault => rfl
  | ok result =>
    obtain ⟨left,found⟩ := result
    cases found with
    | directory names => exact hrest left names
    | file above name inode => cases steps <;> cases others <;> rfl

/-- Without `..` nothing is cancelled but what changes nothing. -/
theorem cancel_of_no_up {steps : List (Step Name)} (hup : .up∉steps) :
    ∃ names,(∀ above,cancel above steps=above++names) ∧
      ∀ links here,directoryAt tree links here (names.map .into)=
        directoryAt tree links here steps := by
  induction steps with
  | nil => exact ⟨[],fun above => by simp [cancel],fun _ _ => rfl⟩
  | cons step rest ih =>
    obtain ⟨names,hcancel,hsame⟩ := ih (fun h => hup (List.mem_cons_of_mem _ h))
    cases step with
    | stay =>
      refine ⟨names,fun above => by rw [cancel,hcancel],fun links here => ?_⟩
      rw [hsame]
      simp only [directoryAt,resolve]
    | up => exact absurd (List.mem_cons_self ..) hup
    | into name =>
      refine ⟨name::names,fun above => by rw [cancel,hcancel,List.append_assoc]; rfl,
        fun links here => ?_⟩
      exact @directoryAt_append_congr _ _ tree _ _ _ _ [.into name] [.into name] _ _ rfl hsame

/-- Every name of the directory has an entry that is a directory. -/
def Standing (names : Directory Name) : Prop :=
  ∀ above name below,names=above++name::below → tree.entry above name=some .directory

/-- The root always stands. -/
theorem standing_root : Standing tree [] := by
  intro above name below h
  simp at h

/-- So does a directory entry of a standing directory. -/
theorem Standing.into {names : Directory Name} {name : Name} (stands : Standing tree names)
    (hentry : tree.entry names name=some .directory) : Standing tree (names++[name]) := by
  intro above other below h
  rcases List.eq_nil_or_concat below with hbelow | ⟨front,last,hbelow⟩
  · have hlast : names++[name]=above++[other] := by rw [h,hbelow]
    obtain ⟨habove,hother⟩ := List.append_inj' hlast rfl
    cases hother
    rwa [← habove]
  · have hlast : names++[name]=(above++other::front)++[last] := by
      rw [h,hbelow,List.concat_eq_append,List.append_assoc,List.cons_append]
    exact stands above other front (List.append_inj' hlast rfl).1

/-- And the directory above. -/
theorem Standing.dropLast {names : Directory Name} (stands : Standing tree names) :
    Standing tree names.dropLast := by
  intro above name below h
  rcases List.eq_nil_or_concat names with hnames | ⟨front,last,hnames⟩
  · simp [hnames] at h
  · rw [hnames,List.concat_eq_append,List.dropLast_concat] at h
    exact stands above name (below++[last]) (by
      rw [hnames,List.concat_eq_append,h,List.append_assoc,List.cons_append])

/-- A standing directory is reached by its own names, without a link. -/
theorem Standing.resolve {names : Directory Name} (stands : Standing tree names) (links : ℕ) :
    resolve tree links [] (names.map .into)=.ok (links,.directory names) := by
  induction names using List.reverseRecOn with
  | nil => simp [Namespaces.resolve]
  | append_singleton front last ih =>
    have hfront : Standing tree front := by simpa using stands.dropLast
    have hlast := stands front last [] rfl
    rw [List.map_append,resolve_append,ih hfront]
    simp [continued,Namespaces.resolve,hlast]

/-- A resolution that starts where a directory stands ends where one does. -/
theorem standing_of_resolve {links left : ℕ} {here names : Directory Name}
    {steps : List (Step Name)} (stands : Standing tree here)
    (hfound : resolve tree links here steps=.ok (left,.directory names)) :
    Standing tree names := by
  fun_induction resolve tree links here steps with
  | case1 links here => simp at hfound; exact hfound.2▸stands
  | case2 links here rest ih => exact ih stands hfound
  | case3 links here rest ih => exact ih stands.dropLast hfound
  | case4 links here name rest hnone => simp at hfound
  | case5 links here name rest hdirectory ih => exact ih (stands.into tree hdirectory) hfound
  | case6 links here name inode hfile => simp at hfound
  | case7 links here name inode hfile head tail => simp at hfound
  | case8 here name rest target hlink => simp at hfound
  | case9 here name rest target hlink links ih =>
    refine ih ?_ hfound
    unfold Route.start
    split
    · exact standing_root tree
    · exact stands

/-- Where no link is met the lexical reading is right. -/
theorem cancel_of_resolve {left : ℕ} {here names : Directory Name} {steps : List (Step Name)}
    (hfound : resolve tree 0 here steps=.ok (left,.directory names)) :
    cancel here steps=names := by
  generalize hzero : (0 : ℕ)=links at hfound
  fun_induction resolve tree links here steps with
  | case1 links here => simp at hfound; simp [cancel,hfound.2]
  | case2 links here rest ih => simpa [cancel] using ih hzero hfound
  | case3 links here rest ih => simpa [cancel] using ih hzero hfound
  | case4 links here name rest hnone => simp at hfound
  | case5 links here name rest hdirectory ih => simpa [cancel] using ih hzero hfound
  | case6 links here name inode hfile => simp at hfound
  | case7 links here name inode hfile head tail => simp at hfound
  | case8 here name rest target hlink => simp at hfound
  | case9 here name rest target hlink links ih => simp at hzero

end Leann.Namespaces
