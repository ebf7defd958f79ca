/-!
# Words of 64 bits
-/

namespace FaultChain
namespace Word64

def count : Nat := 18446744073709551616

/-- Half the number of words, `2 ^ 63`: signed numbers reach from its negative to just below it. -/
def half : Nat := 9223372036854775808

end Word64
end FaultChain
