/-
  Blocks of ports and their index.

  1. A port is added to a list of ports unless there is one of its name (`Port.addTo`), so that the list keeps
     first occurrences (`Port.foldl_addTo_eq_eraseDupsBy`).
  2. A block is `Indexed` if its index lists the names of its ports with their positions.  Looking a name up in
     the index is then a linear search of the ports (`find?_eq`, `contains_eq`).
  3. Adding a port keeps the index in step (`Indexed.add`), and a look-up finds the first port that was added
     under the name (`find?_foldl_add`), now and at any later time (`find?_foldl_add_of_some`).
  4. So a block is the list of first occurrences of what was added to it, and every call answers with the port
     that is found under the name it asks for (`filledBy_perform`).
-/
import Mathlib.Data.List.Nodup
import Mathlib.Data.List.Perm.Subperm
import ShadeGraph.Shader.Port

namespace ShadeGraph

/-! ## Lists of ports -/

namespace Port

/-- Ports with one more at the end, unless there is one of its name. -/
def addTo (ports : List Port) (p : Port) : List Port :=
  if ports.any (·.name == p.name) then ports else ports ++ [p]

/-- The port that stands for `p` among ports to which it is added. -/
def standIn (ports : List Port) (p : Port) : Port := (ports.find? (·.name == p.name)).getD p

variable {ports : List Port} {p q : Port}

/-- What is among ports after one was added was there before, or is that one. -/
theorem mem_of_mem_addTo (h : q ∈ addTo ports p) : q ∈ ports ∨ q = p := by
  rw [addTo] at h
  split at h
  · exact Or.inl h
  · exact (List.mem_append.mp h).imp_right List.mem_singleton.mp

/-- Adding takes no port away. -/
theorem subset_addTo : ports ⊆ addTo ports p := by
  intro q hq
  rw [addTo]
  split
  · exact hq
  · exact List.mem_append_left _ hq

/-- At most one port more: what holds of each port and of each pair can be carried over. -/
theorem addTo_subperm : (addTo ports p).Subperm (p :: ports) := by
  rw [addTo]
  split
  · exact (List.sublist_cons_self p ports).subperm
  · exact (List.perm_append_singleton p ports).subperm

theorem addTo_append_subperm {rest : List Port} :
    (addTo ports p ++ rest).Subperm (p :: (ports ++ rest)) :=
  addTo_subperm.append (List.Subperm.refl rest)

theorem append_addTo_subperm {first : List Port} :
    (first ++ addTo ports p).Subperm (p :: (first ++ ports)) :=
  ((List.Subperm.refl first).append addTo_subperm).trans List.perm_middle.subperm

/-- The name of a port that was added is there, whether the port itself is or not. -/
theorem name_mem_addTo {x : Text} : x ∈ (addTo ports p).map name ↔ x ∈ ports.map name ∨ x = p.name := by
  rw [addTo]
  split
  · next hany =>
    constructor
    · exact Or.inl
    · rintro (hx | rfl)
      · exact hx
      · obtain ⟨q, hq, hname⟩ := List.any_eq_true.mp hany
        exact List.mem_map.mpr ⟨q, hq, beq_iff_eq.mp hname⟩
  · rw [List.map_append, List.mem_append, List.map_singleton, List.mem_singleton]

/-- All names are there after many ports were added. -/
theorem name_mem_foldl_addTo {x : Text} (new : List Port) : ∀ ports : List Port,
    x ∈ (new.foldl addTo ports).map name ↔ x ∈ ports.map name ∨ x ∈ new.map name := by
  induction new with
  | nil => intro ports; simp
  | cons q new ih =>
    intro ports
    rw [List.foldl_cons, ih, name_mem_addTo, List.map_cons, List.mem_cons, or_assoc]

/-- The port that stands for another is among the ports after it was added. -/
theorem standIn_mem : standIn ports p ∈ addTo ports p := by
  rw [standIn, addTo]
  cases hfind : ports.find? (·.name == p.name) with
  | some q =>
    have hq := List.mem_of_find?_eq_some hfind
    split
    · exact hq
    · exact List.mem_append_left _ hq
  | none =>
    have hnone : ports.any (·.name == p.name) = false :=
      List.any_eq_false.mpr (List.find?_eq_none.mp hfind)
    rw [if_neg (by rw [hnone]; exact Bool.false_ne_true)]
    exact List.mem_append_right _ (List.mem_singleton_self p)

/-- Names stay distinct. -/
theorem nodup_addTo (h : (ports.map Port.name).Nodup) : ((addTo ports p).map Port.name).Nodup := by
  rw [addTo]
  split
  · exact h
  · next hnew =>
    rw [List.map_append, List.map_singleton]
    refine List.nodup_append.mpr ⟨h, List.nodup_singleton _, fun x hx y hy hxy => hnew ?_⟩
    obtain ⟨q, hq, rfl⟩ := List.mem_map.mp hx
    rw [List.mem_singleton] at hy
    exact List.any_eq_true.mpr ⟨q, hq, beq_iff_eq.mpr (hxy.trans hy)⟩

/-- Adding ports puts some of them behind those that are there, and only ones with new names. -/
theorem foldl_addTo_eq : ∀ new ports : List Port, ∃ added : List Port,
    new.foldl addTo ports = ports ++ added ∧ added.Sublist new ∧
      ∀ p ∈ added, ∀ q ∈ ports, q.name ≠ p.name := by
  intro new
  induction new with
  | nil => intro ports; exact ⟨[], (List.append_nil ports).symm, List.Sublist.refl [], fun p hp => by cases hp⟩
  | cons p new ih =>
    intro ports
    rw [List.foldl_cons, addTo]
    split
    · obtain ⟨added, heq, hsub, hnames⟩ := ih ports
      exact ⟨added, heq, hsub.cons p, hnames⟩
    · next hnew =>
      obtain ⟨added, heq, hsub, hnames⟩ := ih (ports ++ [p])
      refine ⟨p :: added, by rw [heq, List.append_assoc]; rfl, hsub.cons_cons p, fun r hr q hq => ?_⟩
      rcases List.mem_cons.mp hr with rfl | hr
      · exact fun hname => hnew (List.any_eq_true.mpr ⟨q, hq, beq_iff_eq.mpr hname⟩)
      · exact hnames r hr q (List.mem_append_left _ hq)

/-- A property of all ports stays one when ports that have it are added. -/
theorem forall_foldl_addTo {P : Port → Prop} {new ports : List Port} (h : ∀ q ∈ ports, P q)
    (hnew : ∀ q ∈ new, P q) : ∀ q ∈ new.foldl addTo ports, P q := by
  obtain ⟨added, heq, hsub, _⟩ := foldl_addTo_eq new ports
  intro q hq
  rw [heq] at hq
  rcases List.mem_append.mp hq with hq | hq
  · exact h q hq
  · exact hnew q (hsub.subset hq)

/-- The port with its value changed. -/
def revalued (φ : Option Value → Option Value) (p : Port) : Port := { p with value := φ p.value }

section

variable {f : Port → Port} (hf : ∀ p, (f p).name = p.name)

include hf

/-! Adding goes by names, so it commutes with a change of ports that keeps them. -/

/-- The port is new among changed ports if it is new among the ports. -/
theorem addTo_map (ports : List Port) (p : Port) : addTo (ports.map f) (f p) = (addTo ports p).map f := by
  have hany : (ports.map f).any (·.name == (f p).name) = ports.any (·.name == p.name) := by
    rw [List.any_map, hf p]
    exact congrArg (ports.any ·) (funext fun q => congrArg (· == p.name) (hf q))
  rw [addTo, addTo, hany]
  split
  · rfl
  · rw [List.map_append, List.map_singleton]

theorem foldl_addTo_map (new : List Port) : ∀ ports : List Port,
    (new.map f).foldl addTo (ports.map f) = (new.foldl addTo ports).map f := by
  induction new with
  | nil => intro ports; rfl
  | cons p new ih => intro ports; rw [List.map_cons, List.foldl_cons, List.foldl_cons, addTo_map hf, ih]

theorem find?_map_name (ports : List Port) (name : Text) :
    (ports.map f).find? (·.name == name) = (ports.find? (·.name == name)).map f := by
  rw [List.find?_map]
  exact congrArg (fun q => (ports.find? q).map f) (funext fun p => congrArg (· == name) (hf p))

/-- A changed port is stood for by the change of what stood for it. -/
theorem standIn_map (ports : List Port) (p : Port) : standIn (ports.map f) (f p) = f (standIn ports p) := by
  rw [standIn, standIn, hf p, find?_map_name hf]
  cases ports.find? (·.name == p.name) <;> rfl

end

/-- Many ports more, each of them once. -/
theorem foldl_addTo_subperm (new ports : List Port) :
    (new.foldl addTo ports).Subperm (new ++ ports) := by
  obtain ⟨added, heq, hsub, _⟩ := foldl_addTo_eq new ports
  rw [heq]
  exact List.perm_append_comm.subperm.trans (hsub.subperm.append (List.Subperm.refl ports))

/-- Names stay distinct when ports are added. -/
theorem nodup_foldl_addTo (new : List Port) : ∀ {ports : List Port}, (ports.map Port.name).Nodup →
    ((new.foldl addTo ports).map Port.name).Nodup := by
  induction new with
  | nil => intro ports h; exact h
  | cons p new ih => intro ports h; exact ih (nodup_addTo h)

/-- **Adding keeps first occurrences**: of the ports with new names, the first of each name is put behind
those that are there. -/
theorem foldl_addTo_eq_eraseDupsBy (new : List Port) : ∀ ports : List Port,
    new.foldl addTo ports = ports ++
      (new.filter fun p => !ports.any (·.name == p.name)).eraseDupsBy fun p q => p.name == q.name := by
  induction new with
  | nil => intro ports; exact (List.append_nil ports).symm
  | cons p new ih =>
    intro ports
    rw [List.foldl_cons, ih, addTo]
    cases hthere : ports.any (·.name == p.name) with
    | true => simp [hthere]
    | false =>
      -- later ports of this name are left out on both sides
      have hrest : (new.filter fun q => !(ports ++ [p]).any (·.name == q.name)) =
          (new.filter fun q => !ports.any (·.name == q.name)).filter fun q =>
            decide ((q.name == p.name) = false) := by
        rw [List.filter_filter]
        refine List.filter_congr fun q _ => ?_
        rw [List.any_append, List.any_cons, List.any_nil, Bool.or_false, Bool.not_or, BEq.comm (a := p.name)]
        cases q.name == p.name <;> simp
      rw [if_neg Bool.false_ne_true, hrest, List.filter_cons_of_pos (by rw [hthere]; rfl), List.eraseDupsBy_cons,
        List.append_assoc]
      rfl

/-- Adding to nothing keeps the first port of each name. -/
theorem foldl_addTo_nil (new : List Port) :
    new.foldl addTo [] = new.eraseDupsBy fun p q => p.name == q.name := by
  have hall : (new.filter fun p => !([] : List Port).any (·.name == p.name)) = new :=
    List.filter_eq_self.mpr fun _ _ => rfl
  rw [foldl_addTo_eq_eraseDupsBy, List.nil_append, hall]

end Port

namespace VariableBlock

/-! ## The index of a list of ports -/

/-- The names of ports with their positions, in order. -/
def positions (ports : List Port) : List (Text × Nat) := ports.zipIdx.map fun e => (e.1.name, e.2)

/-- The block of a list of ports with the index that belongs to them. -/
def ofPorts (name instanceName : Text) (ports : List Port) : VariableBlock :=
  ⟨name, instanceName, ports, positions ports⟩

/-- The index lists the names of the ports with their positions. -/
def Indexed (b : VariableBlock) : Prop := b.index = positions b.ports

/-- A port at the end has the number of ports in front of it for its position. -/
theorem positions_append (ports : List Port) (p : Port) :
    positions (ports ++ [p]) = positions ports ++ [(p.name, ports.length)] := by
  rw [positions, List.zipIdx_append, List.map_append, Nat.zero_add]
  rfl

/-- The position of a name in the index is that of the first port of that name. -/
theorem lookup_positions (ports : List Port) (name : Text) :
    (positions ports).lookup name = ports.findIdx? (·.name == name) := by
  -- The first position is counted up along the ports.
  have hfrom : ∀ (ports : List Port) (k : Nat),
      ((ports.zipIdx k).map fun e => (e.1.name, e.2)).lookup name =
        (ports.findIdx? (·.name == name)).map (· + k) := by
    intro ports
    induction ports with
    | nil => intro k; rfl
    | cons p rest ih =>
      intro k
      rw [List.zipIdx_cons, List.map_cons, List.lookup_cons, List.findIdx?_cons, BEq.comm]
      cases p.name == name with
      | true => simp
      | false =>
        rw [ih (k + 1)]
        cases rest.findIdx? (·.name == name) with
        | none => rfl
        | some i => exact congrArg some (by omega : i + (k + 1) = i + 1 + k)
  rw [positions, hfrom ports 0]
  simp

variable {b : VariableBlock}

theorem indexed_empty (name instanceName : Text) : (empty name instanceName).Indexed := rfl

@[simp] theorem name_ofPorts (name instanceName : Text) (ports : List Port) :
    (ofPorts name instanceName ports).name = name := rfl

theorem indexed_ofPorts (name instanceName : Text) (ports : List Port) :
    (ofPorts name instanceName ports).Indexed := rfl

/-! ## Look-ups are linear searches -/

/-- The index gives the position of the first port of a name. -/
theorem index?_eq (h : b.Indexed) (name : Text) : b.index? name = b.ports.findIdx? (·.name == name) := by
  rw [index?, h, lookup_positions]

/-- A name is in the index if a port has it. -/
theorem contains_eq (h : b.Indexed) (name : Text) : b.contains name = b.ports.any (·.name == name) := by
  rw [contains, index?_eq h, List.findIdx?_isSome]

/-- **Looking a name up in the index finds what a search through the ports finds.** -/
theorem find?_eq (h : b.Indexed) (name : Text) : b.find? name = b.ports.find? (·.name == name) := by
  rw [find?, index?_eq h]
  generalize b.ports = ports
  induction ports with
  | nil => rfl
  | cons p rest ih =>
    rw [List.findIdx?_cons, List.find?_cons]
    cases p.name == name with
    | true => rfl
    | false =>
      rw [← ih]
      cases rest.findIdx? (·.name == name) <;> rfl

/-- What is found is a port of the block, also if the index were not in step. -/
theorem mem_of_find? {name : Text} {p : Port} (h : b.find? name = some p) : p ∈ b.ports := by
  obtain ⟨i, _, hi⟩ := Option.bind_eq_some_iff.mp h
  exact List.mem_of_getElem? hi

/-! ## Adding ports: the first port of a name stays -/

@[simp] theorem name_add (b : VariableBlock) (p : Port) : (b.add p).name = b.name := by
  rw [add]
  split <;> rfl

theorem name_foldl_add : ∀ (ports : List Port) (b : VariableBlock), (ports.foldl add b).name = b.name := by
  intro ports
  induction ports with
  | nil => intro b; rfl
  | cons p rest ih => intro b; rw [List.foldl_cons, ih, name_add]

/-- Adding a port keeps the index in step. -/
theorem Indexed.add (h : b.Indexed) (p : Port) : (b.add p).Indexed := by
  rw [VariableBlock.add]
  split
  · exact h
  · rw [Indexed, positions_append, ← h]

/-- Adding many ports keeps the index in step. -/
theorem Indexed.foldl_add (new : List Port) : ∀ {b : VariableBlock}, b.Indexed →
    (new.foldl VariableBlock.add b).Indexed := by
  induction new with
  | nil => intro b h; exact h
  | cons p new ih => intro b h; exact ih (h.add p)

/-- What is found once is found for ever. -/
theorem find?_foldl_add_of_some {x : Text} {q : Port} : ∀ (new : List Port) {b : VariableBlock},
    b.find? x = some q → (new.foldl add b).find? x = some q := by
  intro new
  induction new with
  | nil => intro b h; exact h
  | cons p new ih =>
    intro b h
    refine ih ?_
    rw [add]
    split
    · exact h
    · -- the name keeps its position, and the port at that position stays
      obtain ⟨i, hi, hq⟩ := Option.bind_eq_some_iff.mp h
      have hindex : (b.index ++ [(p.name, b.ports.length)]).lookup x = some i := by
        rw [List.lookup_append, show b.index.lookup x = some i from hi]
        rfl
      refine Option.bind_eq_some_iff.mpr ⟨i, hindex, ?_⟩
      rw [List.getElem?_append_left (List.getElem?_eq_some_iff.mp hq).1, hq]

/-- One look-up after a port was added: the old ports come first, and the new one only counts under its name. -/
theorem find?_add (h : b.Indexed) (p : Port) (x : Text) :
    (b.add p).find? x = (b.find? x).or (if p.name = x then some p else none) := by
  have hsingle : [p].find? (·.name == x) = if p.name = x then some p else none := by
    by_cases h : p.name = x <;> simp [h]
  rw [find?_eq (h.add p), find?_eq h, add]
  split
  · next hthere =>
    -- A port that is not added has the name of one that is there.
    rw [contains_eq h] at hthere
    by_cases hx : p.name = x
    · subst hx
      obtain ⟨r, hr⟩ := Option.isSome_iff_exists.mp (List.find?_isSome.mpr (List.any_eq_true.mp hthere))
      rw [hr]
      rfl
    · rw [if_neg hx, Option.or_none]
  · rw [List.find?_append, hsingle]

/-- **A look-up finds the first port that was added under the name.** -/
theorem find?_foldl_add (x : Text) : ∀ (ports : List Port) {b : VariableBlock}, b.Indexed →
    (ports.foldl VariableBlock.add b).find? x = (b.find? x).or (ports.find? (·.name == x)) := by
  intro ports
  induction ports with
  | nil => intro b _; exact (Option.or_none).symm
  | cons p rest ih =>
    intro b h
    rw [List.foldl_cons, ih (h.add p), find?_add h, Option.or_assoc, List.find?_cons]
    by_cases hx : p.name = x
    · simp [hx]
    · simp [hx, beq_false_of_ne hx]

/-- The port that stands for one to be added is the one that is found afterwards. -/
theorem find?_add_self (h : b.Indexed) (p : Port) : (b.add p).find? p.name = some (b.resolve p) := by
  rw [find?_add h, if_pos rfl, resolve]
  cases b.find? p.name <;> rfl

/-! ## Blocks of given ports -/

/-- Adding to the block of a list is adding to the list. -/
theorem add_ofPorts (name instanceName : Text) (ports : List Port) (p : Port) :
    (ofPorts name instanceName ports).add p = ofPorts name instanceName (Port.addTo ports p) := by
  have hthere : (ofPorts name instanceName ports).contains p.name = ports.any (·.name == p.name) :=
    contains_eq (indexed_ofPorts name instanceName ports) p.name
  rw [add, Port.addTo, hthere]
  split
  · rfl
  · rw [ofPorts, ofPorts, positions_append]

/-- Adding many ports to the block of a list is adding them to the list. -/
theorem foldl_add_ofPorts (name instanceName : Text) (new : List Port) :
    ∀ ports : List Port, new.foldl add (ofPorts name instanceName ports) =
      ofPorts name instanceName (new.foldl Port.addTo ports) := by
  induction new with
  | nil => intro ports; rfl
  | cons p new ih => intro ports; rw [List.foldl_cons, add_ofPorts, ih]; rfl

/-- The port that a block answers with is the one that stands for what was offered. -/
theorem resolve_ofPorts (name instanceName : Text) (ports : List Port) (p : Port) :
    (ofPorts name instanceName ports).resolve p = Port.standIn ports p := by
  rw [resolve, find?_eq (indexed_ofPorts name instanceName ports)]
  rfl

/-- The block with all its ports changed. -/
def mapPorts (f : Port → Port) (b : VariableBlock) : VariableBlock := { b with ports := b.ports.map f }

/-- A change that keeps names keeps the index. -/
theorem mapPorts_ofPorts {f : Port → Port} (hf : ∀ p, (f p).name = p.name) (name instanceName : Text)
    (ports : List Port) :
    (ofPorts name instanceName ports).mapPorts f = ofPorts name instanceName (ports.map f) := by
  have hnames : (fun e : Port × Nat => ((f e.1).name, e.2)) = fun e => (e.1.name, e.2) :=
    funext fun e => congrArg (·, e.2) (hf e.1)
  rw [ofPorts, ofPorts, positions, positions, List.zipIdx_map, List.map_map]
  exact congrArg (mk name instanceName (ports.map f)) (congrArg (ports.zipIdx.map ·) hnames.symm)

/-- The index is kept, so the same positions are looked at. -/
theorem find?_mapPorts (f : Port → Port) (b : VariableBlock) (name : Text) :
    (b.mapPorts f).find? name = (b.find? name).map f := by
  rw [find?, find?, Option.map_bind]
  exact Option.bind_congr fun i _ => List.getElem?_map

section

variable {f : Port → Port} (hf : ∀ p, (f p).name = p.name)

include hf

theorem resolve_mapPorts (b : VariableBlock) (p : Port) : (b.mapPorts f).resolve (f p) = f (b.resolve p) := by
  rw [resolve, resolve, find?_mapPorts, hf]
  cases b.find? p.name <;> rfl

/-- A change that keeps names can be made before a port is added, or after. -/
theorem add_mapPorts (b : VariableBlock) (p : Port) : (b.mapPorts f).add (f p) = (b.add p).mapPorts f := by
  rw [add, add, hf, show (b.mapPorts f).contains p.name = b.contains p.name from rfl]
  split
  · rfl
  · rw [mapPorts, mapPorts, List.map_append, List.length_map]
    rfl

/-- So it can be made before many ports are added, or after. -/
theorem foldl_add_mapPorts (b : VariableBlock) (new : List Port) :
    (new.map f).foldl add (b.mapPorts f) = (new.foldl add b).mapPorts f := by
  induction new generalizing b with
  | nil => rfl
  | cons p new ih => rw [List.map_cons, List.foldl_cons, List.foldl_cons, add_mapPorts hf, ih]

end

end VariableBlock

/-! ## Blocks after calls -/

/-- A call that adds a port to a block. -/
inductive BlockCall where
  /-- Adds a port whose identifier is its name. -/
  | add (name : Text) (type : DataType) (value : Option Value)
  | addPort (p : Port)
  deriving DecidableEq, Repr

/-- The port that a call offers. -/
def BlockCall.port : BlockCall → Port
  | .add name type value => VariableBlock.plainPort name type value
  | .addPort p => p

namespace VariableBlock

/-- The ports that calls return, one after the other, and the block afterwards. -/
def perform : List BlockCall → VariableBlock → List Port × VariableBlock
  | [], b => ([], b)
  | c :: rest, b =>
    (b.resolve c.port :: (perform rest (b.add c.port)).1, (perform rest (b.add c.port)).2)

/-- What a block is after calls that returned `answers`. -/
structure FilledBy (calls : List BlockCall) (answers : List Port) (b : VariableBlock) : Prop where
  distinct : (b.ports.map Port.name).Nodup
  /-- The index maps the names of the ports to their positions, and nothing else. -/
  indexed : ∀ name i, b.index? name = some i ↔ ∃ p, b.ports[i]? = some p ∧ p.name = name
  found : ∀ name, b.find? name = b.ports.find? (·.name == name)
  contained : ∀ name, b.contains name = b.ports.any (·.name == name)
  /-- The ports are the first occurrences of the offered names, in the order of the calls. -/
  firsts : b.ports = (calls.map BlockCall.port).eraseDupsBy fun p q => p.name == q.name
  /-- Under each name there is what was offered first, with its type, identifier and value. -/
  offered : ∀ name, b.find? name = (calls.map BlockCall.port).find? (·.name == name)
  /-- Every call returned the port that is stored under the name it asked for. -/
  answered : List.Forall₂ (fun c p => b.find? c.port.name = some p) calls answers

/-- The block after calls does not depend on what they answered. -/
theorem perform_block (calls : List BlockCall) : ∀ b : VariableBlock,
    (perform calls b).2 = (calls.map BlockCall.port).foldl add b := by
  induction calls with
  | nil => intro b; rfl
  | cons c rest ih => intro b; exact ih (b.add c.port)

/-- With distinct names, the index leads to the only port of a name. -/
theorem index?_eq_some_iff {b : VariableBlock} (h : b.Indexed) (hnames : (b.ports.map Port.name).Nodup)
    (name : Text) (i : Nat) : b.index? name = some i ↔ ∃ p, b.ports[i]? = some p ∧ p.name = name := by
  rw [index?_eq h, List.findIdx?_eq_some_iff_getElem]
  constructor
  · rintro ⟨hi, hname, _⟩
    exact ⟨_, List.getElem?_eq_getElem hi, beq_iff_eq.mp hname⟩
  · rintro ⟨p, hp, rfl⟩
    obtain ⟨hi, rfl⟩ := List.getElem?_eq_some_iff.mp hp
    refine ⟨hi, beq_self_eq_true _, fun j hj hname => ?_⟩
    have hlength : (b.ports.map Port.name).length = b.ports.length := List.length_map _
    have heq : (b.ports.map Port.name)[j] = (b.ports.map Port.name)[i] := by
      rw [List.getElem_map, List.getElem_map]
      exact beq_iff_eq.mp hname
    have hsame := hnames.getElem_inj_iff.mp heq
    omega

/-- A call returns the port that is found under its name from then on. -/
theorem answers_perform (calls : List BlockCall) : ∀ {b : VariableBlock}, b.Indexed →
    List.Forall₂ (fun c p => (perform calls b).2.find? c.port.name = some p) calls (perform calls b).1 := by
  induction calls with
  | nil => intro b _; exact .nil
  | cons c rest ih =>
    intro b h
    refine .cons ?_ (ih (h.add c.port))
    rw [perform_block, List.map_cons, List.foldl_cons]
    exact find?_foldl_add_of_some _ (find?_add_self h c.port)

/-- **A block is the list of first occurrences of what was added to it**, with an index that is in step, and
every call returns the port that is stored under the name it asks for. -/
theorem filledBy_perform (name instanceName : Text) (calls : List BlockCall) :
    FilledBy calls (perform calls (.empty name instanceName)).1
      (perform calls (.empty name instanceName)).2 := by
  have hblock : (perform calls (.empty name instanceName)).2 =
      ofPorts name instanceName ((calls.map BlockCall.port).foldl Port.addTo []) := by
    rw [perform_block]
    exact foldl_add_ofPorts name instanceName _ []
  have hindexed : (perform calls (.empty name instanceName)).2.Indexed := by
    rw [hblock]
    exact indexed_ofPorts name instanceName _
  have hdistinct : ((perform calls (.empty name instanceName)).2.ports.map Port.name).Nodup := by
    rw [hblock]
    exact Port.nodup_foldl_addTo _ List.nodup_nil
  exact {
    distinct := hdistinct
    indexed := index?_eq_some_iff hindexed hdistinct
    found := find?_eq hindexed
    contained := contains_eq hindexed
    firsts := by
      rw [hblock]
      exact Port.foldl_addTo_nil _
    offered := fun x => by
      rw [perform_block, find?_foldl_add x _ (indexed_empty name instanceName)]
      rfl
    answered := answers_perform calls (indexed_empty name instanceName) }

example : perform [.add "a" .float none, .addPort ⟨"b", .color3, "$b", none⟩, .add "a" .integer none]
    (.empty "PublicUniforms" "u_pub") =
    ([⟨"a", .float, "a", none⟩, ⟨"b", .color3, "$b", none⟩, ⟨"a", .float, "a", none⟩],
      ofPorts "PublicUniforms" "u_pub" [⟨"a", .float, "a", none⟩, ⟨"b", .color3, "$b", none⟩]) := by
  decide

end VariableBlock
end ShadeGraph
