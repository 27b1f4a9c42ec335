import TerseDsa.List.Relinking
import TerseDsa.List.Building
import TerseDsa.Foundation.Chains
import TerseDsa.Deque.Objects
import TerseDsa.HMap.Stability
import TerseDsa.HSet.Refusals
import TerseDsa.HMap.Equality
import TerseDsa.Arena.Safety
import TerseDsa.Arena.Contract
import TerseDsa.Pool.Contract
import TerseDsa.Alloc.Client
import TerseDsa.Pool.Safety
import TerseDsa.Slab.Contract
import TerseDsa.Debug.Contract
import TerseDsa.Debug.History
import TerseDsa.Debug.Mapping
import TerseDsa.BitSet.Objects
import TerseDsa.BitSet.Scan
import TerseDsa.Core.Uniform
import TerseDsa.Core.Draws
import TerseDsa.Core.Scalar
import TerseDsa.Algo.Copy
import TerseDsa.Algo.Select
import TerseDsa.Algo.Set
import TerseDsa.Algo.Stepping
import TerseDsa.Alloc.Realloc
import TerseDsa.Alloc.Log
import TerseDsa.Vec.Objects
import TerseDsa.Algo.Stability
import TerseDsa.Containers.Operands
import TerseDsa.Containers.Refusals
import TerseDsa.Algo.Unordered
import TerseDsa.Algo.Rearranged
import TerseDsa.Algo.BinarySearch
import TerseDsa.Algo.Partition
import TerseDsa.Algo.Unique
import TerseDsa.Algo.Fold
import TerseDsa.Algo.Fill
import TerseDsa.Algo.Exactness
import TerseDsa.Containers.Nodes
import TerseDsa.Stack.Objects
import TerseDsa.Queue.Objects
import TerseDsa.Alloc.Tower
import TerseDsa.Algo.Queries
import TerseDsa.Algo.Asking
