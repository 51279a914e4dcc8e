import Leann.LockOwner
import Leann.Numerals

/-!
# A lock descriptor that is read while it is written

Whoever looks at a lock sees the start of its descriptor, or none. The process
id is complete once there is a host to compare, so that nothing but the own id
of the writer is ever probed. The name of the host may still be cut, and a
reader whose name is that start takes the lock for one of its own host.
-/

namespace Leann.TornOwner

open Effects Exceptions Host Lines LockOwner Numerals

section Definitions

/-- What `write_lock_owner` writes. -/
def descriptor (pid : ℕ) (host : Text) (started : ℕ) : Text :=
  ("pid=" : Text)++toText pid++[lineFeed]++("host=" : Text)++host++[lineFeed]++
    ("started_unix=" : Text)++toText started++[lineFeed]

/-- The host of a reader. -/
structure Reader where
  /-- What `current_host_name` returns there. -/
  host : Text
  /-- Whether a process answers a signal there. -/
  runs : ℕ → Bool

/-- The result of a program that only asks for the name of the host and for
processes, with the processes it probed. -/
def observe {α : Type} (reader : Reader) : HostProgram α → Option (α×List ℕ)
  | .done value => some (value,[])
  | .call .hostName next => observe reader (next reader.host)
  | .call (.signalProcess pid) next =>
    (observe reader (next (reader.runs pid))).map (fun seen => (seen.1,pid::seen.2))
  | .call _ _ => none

/-- `read_lock_owner` followed by `owner_liveness`. -/
def judge (reader : Reader) (bytes : Option Text) : Option (OwnerLiveness×List ℕ) :=
  observe reader (ownerLiveness (bytes.bind readLockOwner))

/-- A process with this id runs where the reader is. -/
def Reader.Runs (reader : Reader) (pid : ℕ) : Prop :=
  0<pid ∧ pid≤2^31-1 ∧ reader.runs pid=true

/-- The verdict on a part of the descriptor is none or that on all of it. It is
not `Absent` where the writer runs, and only the writer's id was probed. -/
def Honest (reader : Reader) (pid : ℕ) (host : Text) (started : ℕ) (seen : Option Text) : Prop :=
  ∃ verdict probed whole,judge reader seen=some (verdict,probed) ∧
    (judge reader (some (descriptor pid host started))).map Prod.fst=some whole ∧
    (verdict=.unknown ∨ verdict=whole) ∧
    (reader.host=host → reader.Runs pid → verdict≠.absent) ∧ ∀ other∈probed,other=pid

/-- A line without the carriage return at its end. -/
def chomp (line : Text) : Text :=
  if line.getLast?=some carriageReturn then line.dropLast else line

/-- A line of a key and a value. -/
def record (key value : Text) : Text := key++equalsSign::value

/-- The descriptor is cut inside the name of its host, where what is left is
the name of the reader's host. -/
def Mistaken (reader : Reader) (pid : ℕ) (host : Text) (seen : Option Text) : Prop :=
  reader.host≠[] ∧ ∃ kept,kept<+:host ∧ kept≠host ∧ chomp kept=reader.host ∧
    seen=some (record "pid" (toText pid)++lineFeed::record "host" kept)

end Definitions

section Lists

/-- What comes before a byte, or that byte and what comes behind it. -/
theorem prefix_cut {part front rest : Text} {byte : UInt8} (h : part<+:front++byte::rest) :
    part<+:front ∨ ∃ more,more<+:rest ∧ part=front++byte::more := by
  cases List.prefix_or_prefix_of_prefix h (List.prefix_append front (byte::rest)) with
  | inl h => exact .inl h
  | inr hfront =>
    obtain ⟨more,rfl⟩ := hfront
    have hmore := (List.prefix_append_right_inj front).mp h
    cases more with
    | nil => exact .inl (by rw [List.append_nil])
    | cons other more =>
      rw [List.cons_prefix_cons] at hmore
      exact .inr ⟨more,hmore.2,by rw [hmore.1]⟩

theorem chomp_subset {line : Text} {byte : UInt8} (h : byte∈chomp line) : byte∈line := by
  unfold chomp at h
  split at h
  · exact List.mem_of_mem_dropLast h
  · exact h

theorem chomp_length (line : Text) : (chomp line).length≤line.length := by
  unfold chomp
  split
  · rw [List.length_dropLast]
    omega
  · exact le_rfl

/-- A line that does not end with a carriage return is kept. -/
theorem chomp_eq {line : Text} (h : line.getLast?≠some carriageReturn) : chomp line=line := if_neg h

/-- The carriage return of a line is that of its value. -/
theorem chomp_record (key value : Text) : chomp (record key value)=record key (chomp value) := by
  cases hv : value with
  | nil =>
    rw [record,chomp_eq (by rw [List.getLast?_append]; exact fun h => by cases h),chomp_eq
      (by exact fun h => by cases h),record]
  | cons byte rest =>
    have hlast : (record key (byte::rest)).getLast?=(byte::rest).getLast? := by
      rw [record,List.getLast?_append,List.getLast?_cons_cons,List.getLast?_cons]
      rfl
    unfold chomp
    rw [hlast]
    split
    · rw [record,record,List.dropLast_append_of_ne_nil (List.cons_ne_nil _ _),
        List.dropLast_cons_of_ne_nil (List.cons_ne_nil _ _)]
    · rfl

/-- The bytes in front of a separator that they do not contain. -/
theorem before_separator (key : Text) (hk : equalsSign∉key) (value : Text) :
    (record key value).takeWhile (·≠equalsSign)=key ∧
      ((record key value).dropWhile (·≠equalsSign)).tail=value := by
  have hall : ∀ byte∈key,decide (byte≠equalsSign)=true := fun byte hb =>
    decide_eq_true (fun he => hk (he ▸ hb))
  rw [record,List.takeWhile_append_of_pos hall,List.dropWhile_append_of_pos hall,
    List.takeWhile_cons_of_neg (by simp),List.dropWhile_cons_of_neg (by simp),List.append_nil]
  exact ⟨rfl,rfl⟩

/-- A line of digits ends with a digit. -/
theorem chomp_digits {digits : Text} (h : ∀ byte∈digits,IsDigit byte) : chomp digits=digits := by
  refine chomp_eq (fun hlast => ?_)
  have hdigit := h carriageReturn (List.mem_of_getLast? hlast)
  exact absurd hdigit (by decide)

end Lists

section Lines

/-- One finished line, even an empty one, is one round of the loop. -/
theorem fold_finishLine (seen : Bool×Owner) (line : Text) :
    (finishLine line).foldl readOwnerLine seen=readOwnerLine seen (chomp line) := by
  change (if (chomp line).isEmpty then [] else [chomp line]).foldl readOwnerLine seen=_
  split
  · rename_i hempty
    rw [List.isEmpty_iff.mp hempty]
    rfl
  · rfl

/-- The bytes of a line are taken one by one. -/
theorem nativeLines_line (line front rest : Text) (h : lineFeed∉front) :
    nativeLines line (front++lineFeed::rest)=finishLine (line++front)++nativeLines [] rest ∧
      nativeLines line front=finishLine (line++front) := by
  induction front generalizing line with
  | nil =>
    rw [List.nil_append,List.append_nil]
    exact ⟨if_pos rfl,rfl⟩
  | cons byte front ih =>
    rw [List.mem_cons,not_or] at h
    obtain ⟨hmore,hend⟩ := ih (line++[byte]) h.2
    rw [List.append_assoc] at hmore hend
    constructor
    · rw [List.cons_append,nativeLines,if_neg (Ne.symm h.1)]
      exact hmore
    · rw [nativeLines,if_neg (Ne.symm h.1)]
      exact hend

/-- What the loop of `read_lock_owner` has seen of some bytes. -/
def gathered (seen : Bool×Owner) (bytes : Text) : Bool×Owner :=
  (nativeLines [] bytes).foldl readOwnerLine seen

theorem gathered_more (seen : Bool×Owner) {line : Text} (h : lineFeed∉line) (rest : Text) :
    gathered seen (line++lineFeed::rest)=gathered (readOwnerLine seen (chomp line)) rest := by
  rw [gathered,(nativeLines_line [] line rest h).1,List.foldl_append,fold_finishLine]
  rfl

theorem gathered_last (seen : Bool×Owner) {line : Text} (h : lineFeed∉line) :
    gathered seen line=readOwnerLine seen (chomp line) := by
  rw [gathered,(nativeLines_line [] line [] h).2,fold_finishLine]
  rfl

theorem readLockOwner_gathered (bytes : Text) : readLockOwner bytes=
    if (gathered (false,{}) bytes).1 then some (gathered (false,{}) bytes).2 else none := by
  rw [readLockOwner,readLines_eq]
  rfl

/-- A line without a separator says nothing. -/
theorem readOwnerLine_plain (seen : Bool×Owner) {line : Text} (h : equalsSign∉line) :
    readOwnerLine seen line=seen := if_pos h

theorem separator_mem (key value : Text) : equalsSign∈record key value :=
  List.mem_append_right _ List.mem_cons_self

/-- The id of a process. -/
theorem readOwnerLine_pid (seen : Bool×Owner) (value : Text) :
    readOwnerLine seen (record "pid" value)=
      match parseUnsigned value with
      | some pid => (true,{seen.2 with pid := pid})
      | none => (false,seen.2) := by
  obtain ⟨hkey,hvalue⟩ := before_separator "pid" (by decide) value
  rw [readOwnerLine,if_neg (not_not.mpr (separator_mem _ value)),hkey,hvalue]
  rfl

/-- The name of a host. -/
theorem readOwnerLine_host (seen : Bool×Owner) (value : Text) :
    readOwnerLine seen (record "host" value)=(seen.1,{seen.2 with host := value}) := by
  obtain ⟨hkey,hvalue⟩ := before_separator "host" (by decide) value
  rw [readOwnerLine,if_neg (not_not.mpr (separator_mem _ value)),hkey,hvalue]
  rfl

/-- The time of the start. -/
theorem readOwnerLine_started (seen : Bool×Owner) (value : Text) :
    ∃ started,readOwnerLine seen (record "started_unix" value)=
      (seen.1,{seen.2 with startedUnix := started}) := by
  obtain ⟨hkey,hvalue⟩ := before_separator "started_unix" (by decide) value
  rw [readOwnerLine,if_neg (not_not.mpr (separator_mem _ value)),hkey,hvalue]
  dsimp only
  rw [if_neg (by decide),if_neg (by decide),if_pos rfl]
  cases h : parseUnsigned value with
  | some started => exact ⟨started,rfl⟩
  | none => exact ⟨seen.2.startedUnix,rfl⟩

/-- A line that starts like the last one keeps the id and the host. -/
theorem started_line (seen : Bool×Owner) {line digits : Text} (h : line<+:record "started_unix" digits) :
    ∃ started,readOwnerLine seen (chomp line)=(seen.1,{seen.2 with startedUnix := started}) := by
  cases prefix_cut h with
  | inl hkey =>
    refine ⟨seen.2.startedUnix,readOwnerLine_plain seen (fun hmem => ?_)⟩
    exact absurd (hkey.subset (chomp_subset hmem)) (by decide)
  | inr hvalue =>
    obtain ⟨more,_,rfl⟩ := hvalue
    have hrecord := chomp_record "started_unix" more
    rw [record] at hrecord
    rw [hrecord]
    exact readOwnerLine_started seen (chomp more)

end Lines

section Parts

variable {pid started : ℕ} {host : Text}

/-- A written number is read back. -/
theorem parseUnsigned_toText (h : pid<2^64) : parseUnsigned (toText pid)=some pid := by
  have hall : (toText pid).takeWhile IsDigit=toText pid :=
    List.takeWhile_eq_self_iff.mpr (fun byte hb => decide_eq_true (toText_digit pid byte hb))
  have hchars : fromChars (toText pid)=some (pid,[]) := by
    rw [fromChars,hall,if_neg (by
      rw [decimalValue_toText,not_or]
      exact ⟨toText_ne_nil pid,Nat.not_le_of_lt h⟩),
      decimalValue_toText,List.drop_length]
  rw [parseUnsigned,hchars]

/-- The lines of the descriptor. -/
theorem descriptor_eq : descriptor pid host started=
    record "pid" (toText pid)++lineFeed::(record "host" host++
      lineFeed::(record "started_unix" (toText started)++[lineFeed])) := by
  have hp : ("pid=" : Text)=("pid" : Text)++[equalsSign] := by decide
  have hh : ("host=" : Text)=("host" : Text)++[equalsSign] := by decide
  have hs : ("started_unix=" : Text)=("started_unix" : Text)++[equalsSign] := by decide
  simp [descriptor,record,hp,hh,hs]

/-- No part of a line of digits ends it. -/
theorem record_line {key value : Text} (hk : lineFeed∉key) (hv : lineFeed∉value) :
    lineFeed∉record key value := by
  rw [record,List.mem_append,List.mem_cons,not_or,not_or]
  exact ⟨hk,by decide,hv⟩

theorem digits_line (value : ℕ) : lineFeed∉toText value := fun h =>
  absurd (toText_digit value lineFeed h) (by decide)

/-- The loop when the line of the process is complete. -/
theorem gathered_pid (h : pid<2^64) (rest : Text) :
    gathered (false,{}) (record "pid" (toText pid)++lineFeed::rest)=
      gathered (true,⟨pid,[],0⟩) rest := by
  rw [gathered_more _ (record_line (by decide) (digits_line pid)),chomp_record,
    chomp_digits (toText_digit pid),readOwnerLine_pid,parseUnsigned_toText h]

/-- The owner where the name of the host is cut. -/
theorem cut_host (h : pid<2^64) {kept : Text} (hk : lineFeed∉kept) :
    readLockOwner (record "pid" (toText pid)++lineFeed::record "host" kept)=
      some ⟨pid,chomp kept,0⟩ := by
  rw [readLockOwner_gathered,gathered_pid h,gathered_last _ (record_line (by decide) hk),
    chomp_record,readOwnerLine_host]
  rfl

/-- The owner where the name of the host is complete. -/
theorem whole_host (h : pid<2^64) (hl : lineFeed∉host) (hr : chomp host=host) {rest : Text}
    (hrest : rest<+:record "started_unix" (toText started)++[lineFeed]) :
    ∃ time,readLockOwner (record "pid" (toText pid)++lineFeed::(record "host" host++lineFeed::rest))=
      some ⟨pid,host,time⟩ := by
  rw [readLockOwner_gathered,gathered_pid h,gathered_more _ (record_line (by decide) hl),chomp_record,
    readOwnerLine_host,hr]
  have hline : lineFeed∉record "started_unix" (toText started) :=
    record_line (by decide) (digits_line started)
  cases prefix_cut hrest with
  | inl hpart =>
    obtain ⟨time,htime⟩ := started_line (true,⟨pid,host,0⟩) hpart
    refine ⟨time,?_⟩
    rw [gathered_last _ (fun hmem => hline (hpart.subset hmem)),htime]
    rfl
  | inr hend =>
    obtain ⟨more,hmore,rfl⟩ := hend
    rw [List.prefix_nil] at hmore
    obtain ⟨time,htime⟩ := started_line (true,⟨pid,host,0⟩) (List.prefix_refl _)
    refine ⟨time,?_⟩
    rw [hmore,gathered_more _ hline,htime]
    rfl

/-- Without a separator behind the key of the host there is no host. -/
theorem no_host (h : pid<2^64) {part : Text} (hpart : part<+:record "pid" (toText pid) ∨
      ∃ more,more<+:("host" : Text) ∧ part=record "pid" (toText pid)++lineFeed::more) :
    ∀ owner,readLockOwner part=some owner → owner.host=[] := by
  intro owner howner
  rw [readLockOwner_gathered] at howner
  cases hpart with
  | inl hpid =>
    have hline : lineFeed∉part := fun hmem =>
      record_line (by decide) (digits_line pid) (hpid.subset hmem)
    rw [gathered_last _ hline] at howner
    cases prefix_cut hpid with
    | inl hkey =>
      rw [readOwnerLine_plain _ (fun hmem =>
        absurd (hkey.subset (chomp_subset hmem)) (by decide))] at howner
      cases howner
    | inr hvalue =>
      obtain ⟨more,_,rfl⟩ := hvalue
      have hrecord := chomp_record "pid" more
      rw [record] at hrecord
      rw [hrecord,readOwnerLine_pid] at howner
      cases hparse : parseUnsigned (chomp more) with
      | none =>
        rw [hparse] at howner
        cases howner
      | some number =>
        rw [hparse] at howner
        cases howner
        rfl
  | inr hhost =>
    obtain ⟨more,hmore,rfl⟩ := hhost
    have hline : lineFeed∉more := fun hmem => absurd (hmore.subset hmem) (by decide)
    rw [gathered_pid h,gathered_last _ hline,readOwnerLine_plain _ (fun hmem =>
      absurd (hmore.subset (chomp_subset hmem)) (by decide))] at howner
    cases howner
    rfl

end Parts

section Verdicts

variable {reader : Reader} {pid started : ℕ} {host : Text}

/-- The verdict on a process of this host. -/
def settled (reader : Reader) (pid : ℕ) : OwnerLiveness×List ℕ :=
  if pid=0 ∨ 2^31-1<pid then (.absent,[]) else (if reader.runs pid then .running else .absent,[pid])

/-- Only an owner on a host of the same name is looked for. -/
theorem observe_owner (owner : Owner) : observe reader (ownerLiveness (some owner))=
    some (if reader.host=[] ∨ owner.host=[] ∨ owner.host≠reader.host then (.unknown,[])
      else settled reader owner.pid) := by
  change observe reader (Program.bind (.call .hostName .done) _)=_
  simp only [Program.bind,observe]
  by_cases hhost : reader.host=[] ∨ owner.host=[] ∨ owner.host≠reader.host
  · rw [if_pos hhost,if_pos hhost]
    rfl
  · rw [if_neg hhost,if_neg hhost,processExists,settled]
    by_cases hpid : owner.pid=0 ∨ 2^31-1<owner.pid
    · rw [if_pos hpid,if_pos hpid]
      rfl
    · rw [if_neg hpid,if_neg hpid]
      rfl

/-- Where there is no host to compare, nothing is known and nothing probed. -/
theorem observe_hostless {owner : Option Owner} (h : ∀ found,owner=some found → found.host=[]) :
    observe reader (ownerLiveness owner)=some (.unknown,[]) := by
  cases owner with
  | none => rfl
  | some owner => rw [observe_owner,if_pos (.inr (.inl (h owner rfl)))]

/-- A process that runs here is found. -/
theorem settled_runs (h : reader.Runs pid) : (settled reader pid).1≠.absent := by
  rw [settled,if_neg (by have := h.1; have := h.2.1; omega),h.2.2]
  exact fun hc => by cases hc

theorem settled_probes (pid : ℕ) : ∀ other∈(settled reader pid).2,other=pid := by
  intro other ho
  unfold settled at ho
  split at ho
  · cases ho
  · exact List.mem_singleton.mp ho

/-- The verdict on the whole descriptor. -/
theorem judge_whole (hp : pid<2^64) (hl : lineFeed∉host) (hr : chomp host=host) :
    judge reader (some (descriptor pid host started))=
      some (if reader.host=[] ∨ host=[] ∨ host≠reader.host then (.unknown,[])
        else settled reader pid) := by
  obtain ⟨time,htime⟩ := @whole_host pid started host hp hl hr _ (List.prefix_refl _)
  rw [judge,Option.bind_some,descriptor_eq,htime,observe_owner]

/-- A reader who sees any part of a descriptor, or none, learns nothing or
what the whole descriptor says, unless the name of the host is cut to that of
its own host. -/
theorem torn_descriptor (hp : pid<2^64) (hl : lineFeed∉host)
    (hr : host.getLast?≠some carriageReturn) (seen : Option Text)
    (hseen : ∀ part∈seen,part<+:descriptor pid host started) :
    Honest reader pid host started seen ↔ ¬Mistaken reader pid host seen := by
  have hwhole := @judge_whole reader pid started host hp hl (chomp_eq hr)
  have hfull : (judge reader (some (descriptor pid host started))).map Prod.fst=
      some (if reader.host=[] ∨ host=[] ∨ host≠reader.host then (.unknown,[])
        else settled reader pid).1 := by
    rw [hwhole]
    rfl
  have hunknown (h : judge reader seen=some (.unknown,[])) : Honest reader pid host started seen :=
    ⟨_,_,_,h,hfull,.inl rfl,fun _ _ => OwnerLiveness.noConfusion,fun _ ho => (List.not_mem_nil ho).elim⟩
  have hsame (h : judge reader seen=judge reader (some (descriptor pid host started))) :
      Honest reader pid host started seen := by
    by_cases hhost : reader.host=[] ∨ host=[] ∨ host≠reader.host
    · rw [if_pos hhost] at hwhole
      exact hunknown (h.trans hwhole)
    · rw [if_neg hhost] at hwhole hfull
      exact ⟨_,_,_,h.trans hwhole,hfull,.inr rfl,fun _ hruns => settled_runs hruns,settled_probes pid⟩
  constructor
  · rintro ⟨verdict,probed,whole,hjudge,hverdict,hequal,_,_⟩ ⟨hne,kept,hkept,hproper,hchomp,rfl⟩
    have hshort : kept.length<host.length :=
      Nat.lt_of_le_of_ne hkept.length_le (fun he => hproper (hkept.eq_of_length he))
    have hother : host≠reader.host := by
      intro he
      have hle := chomp_length kept
      rw [hchomp,←he] at hle
      omega
    rw [judge,Option.bind_some,cut_host hp (fun hmem => hl (hkept.subset hmem)),observe_owner,hchomp,
      if_neg (by simp [hne]),Option.some.injEq] at hjudge
    rw [hfull,if_pos (.inr (.inr hother)),Option.some.injEq] at hverdict
    have hknown : (settled reader pid).1=.unknown := by
      rw [hjudge]
      cases hequal with
      | inl h => exact h
      | inr h => exact h.trans hverdict.symm
    unfold settled at hknown
    split at hknown
    · cases hknown
    · dsimp only at hknown
      split at hknown <;> cases hknown
  · intro hcut
    cases seen with
    | none => exact hunknown rfl
    | some part =>
      have hpart := hseen part rfl
      rw [descriptor_eq] at hpart
      have hhostless (h : part<+:record "pid" (toText pid) ∨ ∃ more,more<+:("host" : Text) ∧
          part=record "pid" (toText pid)++lineFeed::more) :
          Honest reader pid host started (some part) :=
        hunknown (observe_hostless (no_host hp h))
      cases prefix_cut hpart with
      | inl hfirst => exact hhostless (.inl hfirst)
      | inr hsecond =>
        obtain ⟨more,hmore,hform⟩ := hsecond
        cases prefix_cut hmore with
        | inl hhost =>
          cases prefix_cut hhost with
          | inl hkey => exact hhostless (.inr ⟨more,hkey,hform⟩)
          | inr hvalue =>
            obtain ⟨kept,hkept,hvalue⟩ := hvalue
            have howner : judge reader (some part)=some (if reader.host=[] ∨ chomp kept=[] ∨
                chomp kept≠reader.host then (.unknown,[]) else settled reader pid) := by
              rw [judge,Option.bind_some,hform,hvalue]
              exact (congrArg (fun owner => observe reader (ownerLiveness owner))
                (cut_host hp (fun hmem => hl (hkept.subset hmem)))).trans (observe_owner _)
            by_cases he : kept=host
            · rw [he,chomp_eq hr] at howner
              exact hsame (howner.trans hwhole.symm)
            · have hnot : reader.host=[] ∨ chomp kept=[] ∨ chomp kept≠reader.host := by
                by_contra hc
                rw [not_or,not_or,not_not] at hc
                exact hcut ⟨hc.1,kept,hkept,he,hc.2.2,by rw [hform,hvalue]; rfl⟩
              rw [if_pos hnot] at howner
              exact hunknown howner
        | inr hthird =>
          obtain ⟨rest,hrest,hmore⟩ := hthird
          obtain ⟨time,htime⟩ := @whole_host pid started host hp hl (chomp_eq hr) rest hrest
          refine hsame ?_
          rw [hwhole,judge,Option.bind_some,hform,hmore,htime,observe_owner]

/-- A reader on `node1`, where no process has the id of the writer. -/
def neighbour : Reader := ⟨("node1" : Text),fun _ => false⟩

/-- The start of a descriptor that a process on `node12` writes. -/
def cutDescriptor : Text := "pid=4711\nhost=node1"

theorem cutDescriptor_eq : cutDescriptor=
    record "pid" (toText 4711)++lineFeed::record "host" "node1" := by decide +kernel

theorem cutDescriptor_part : cutDescriptor<+:descriptor 4711 "node12" 1700000000 := by
  decide +kernel

/-- The whole descriptor says nothing about that process, its start that the
process is gone. -/
theorem torn_descriptor_neighbour : cutDescriptor<+:descriptor 4711 "node12" 1700000000 ∧
    judge neighbour (some cutDescriptor)=some (.absent,[4711]) ∧
    judge neighbour (some (descriptor 4711 "node12" 1700000000))=some (.unknown,[]) ∧
    ¬Honest neighbour 4711 "node12" 1700000000 (some cutDescriptor) := by
  have hcut : judge neighbour (some cutDescriptor)=some (.absent,[4711]) := by
    rw [judge,Option.bind_some,cutDescriptor_eq,cut_host (by decide) (by decide),observe_owner]
    rfl
  have hwhole : judge neighbour (some (descriptor 4711 "node12" 1700000000))=some (.unknown,[]) := by
    rw [judge_whole (by decide) (by decide) (chomp_eq (by decide)),if_pos (by decide)]
  refine ⟨cutDescriptor_part,hcut,hwhole,fun hhonest => ?_⟩
  obtain ⟨verdict,probed,whole,hjudge,hverdict,hequal,_⟩ := hhonest
  rw [hcut,Option.some.injEq,Prod.mk.injEq] at hjudge
  rw [hwhole,Option.map_some,Option.some.injEq] at hverdict
  rw [←hjudge.1,←hverdict] at hequal
  exact absurd hequal (by decide)

/-- The same start of a descriptor that was written on the reader's host. -/
theorem torn_descriptor_own :
    (∀ part∈some cutDescriptor,part<+:descriptor 4711 "node1" 1700000000) ∧
    (Honest neighbour 4711 "node1" 1700000000 (some cutDescriptor) ↔
      ¬Mistaken neighbour 4711 "node1" (some cutDescriptor)) := by
  have hpart : ∀ part∈some cutDescriptor,part<+:descriptor 4711 "node1" 1700000000 := by
    intro part hp
    rw [←Option.some.inj hp]
    decide +kernel
  exact ⟨hpart,torn_descriptor (by decide) (by decide) (by decide) _ hpart⟩

end Verdicts

end Leann.TornOwner
