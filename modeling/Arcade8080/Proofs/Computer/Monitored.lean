import Arcade8080.Proofs.Computer.Alike

/-!
# Monitored buses are transparent

A monitor on the bus records accesses and changes nothing else: no access tells
a device from the same device with a monitor. What a monitored computer has
recorded is therefore what the computer without a monitor has asked of its bus.
-/

namespace Arcade8080

variable {β : Type}

theorem Monitored.indistinct [Bus β] :
    Bus.Indistinct fun (bus : Monitored β) (device : β) => bus.device = device where
  attached h := by subst h; rfl
  input h port := by subst h; exact ⟨rfl, rfl⟩
  output h port value := by subst h; rfl

namespace Computer

/-- The computer with a monitor on its bus that has recorded nothing yet. -/
def monitored (c : Computer β) : Computer (Monitored β) :=
  { processor := c.processor, memory := c.memory, bus := { device := c.bus } }

theorem alike_monitored (c : Computer β) :
    Alike (fun bus device => bus.device = device) c.monitored c :=
  ⟨rfl, ⟨rfl, rfl⟩, rfl⟩

theorem execute_monitored [Bus β] (c : Computer β) : c.monitored.execute.1 = c.execute.1 :=
  (c.alike_monitored.execute Monitored.indistinct).1

end Computer

end Arcade8080
