/-! # Powers of two and ten -/

namespace HotplugDetect

def twoTo (k : Nat) : Nat := Nat.pow 2 k

def tenTo (k : Nat) : Nat := Nat.pow 10 k

end HotplugDetect
