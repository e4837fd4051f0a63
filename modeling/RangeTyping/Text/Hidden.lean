/-!
# Characters without a shape of their own

The code points outside ASCII that do not print by themselves: controls, formats, surrogates,
private and unassigned code points, all separators, the letters that only fill a place, and the
marks that extend the character before them.  The two halfwidth sound marks are shown beside their
letter and not on it, so they print.
-/

namespace RangeTyping.Text

/-- The first code point of each run and how many more it has, in ascending order. -/
def hiddenRanges : List (Nat × Nat) :=
  [ (127, 33), (173, 0), (768, 111), (888, 1), (896, 3), (907, 0), (909, 0), (930, 0), (1155, 6),
    (1328, 0), (1367, 1), (1419, 1), (1424, 45), (1471, 0), (1473, 1), (1476, 1), (1479, 8),
    (1515, 3), (1525, 16), (1552, 10), (1564, 0), (1611, 20), (1648, 0), (1750, 7), (1759, 5),
    (1767, 1), (1770, 3), (1806, 1), (1809, 0), (1840, 28), (1958, 10), (1970, 13), (2027, 8),
    (2043, 2), (2070, 3), (2075, 8), (2085, 2), (2089, 6), (2111, 0), (2137, 4), (2143, 0),
    (2155, 4), (2192, 15), (2250, 56), (2362, 0), (2364, 0), (2369, 7), (2381, 0), (2385, 6),
    (2402, 1), (2433, 0), (2436, 0), (2445, 1), (2449, 1), (2473, 0), (2481, 0), (2483, 2),
    (2490, 2), (2494, 0), (2497, 5), (2505, 1), (2509, 0), (2511, 12), (2526, 0), (2530, 3),
    (2558, 4), (2564, 0), (2571, 3), (2577, 1), (2601, 0), (2609, 0), (2612, 0), (2615, 0),
    (2618, 3), (2625, 23), (2653, 0), (2655, 6), (2672, 1), (2677, 0), (2679, 11), (2692, 0),
    (2702, 0), (2706, 0), (2729, 0), (2737, 0), (2740, 0), (2746, 2), (2753, 7), (2762, 0),
    (2765, 2), (2769, 14), (2786, 3), (2802, 6), (2810, 7), (2820, 0), (2829, 1), (2833, 1),
    (2857, 0), (2865, 0), (2868, 0), (2874, 2), (2878, 1), (2881, 5), (2889, 1), (2893, 14),
    (2910, 0), (2914, 3), (2936, 10), (2948, 0), (2955, 2), (2961, 0), (2966, 2), (2971, 0),
    (2973, 0), (2976, 2), (2981, 2), (2987, 2), (3002, 4), (3008, 0), (3011, 2), (3017, 0),
    (3021, 2), (3025, 20), (3067, 5), (3076, 0), (3085, 0), (3089, 0), (3113, 0), (3130, 2),
    (3134, 2), (3141, 18), (3163, 0), (3166, 1), (3170, 3), (3184, 6), (3201, 0), (3213, 0),
    (3217, 0), (3241, 0), (3252, 0), (3258, 2), (3263, 1), (3266, 0), (3269, 22), (3295, 0),
    (3298, 3), (3312, 0), (3316, 13), (3341, 0), (3345, 0), (3387, 1), (3390, 0), (3393, 4),
    (3401, 0), (3405, 0), (3408, 3), (3415, 0), (3426, 3), (3456, 1), (3460, 0), (3479, 2),
    (3506, 0), (3516, 0), (3518, 1), (3527, 8), (3538, 5), (3551, 6), (3568, 1), (3573, 11),
    (3633, 0), (3636, 10), (3655, 7), (3676, 36), (3715, 0), (3717, 0), (3723, 0), (3748, 0),
    (3750, 0), (3761, 0), (3764, 8), (3774, 1), (3781, 0), (3783, 8), (3802, 1), (3808, 31),
    (3864, 1), (3893, 0), (3895, 0), (3897, 0), (3912, 0), (3949, 17), (3968, 4), (3974, 1),
    (3981, 48), (4038, 0), (4045, 0), (4059, 36), (4141, 3), (4146, 5), (4153, 1), (4157, 1),
    (4184, 1), (4190, 2), (4209, 3), (4226, 0), (4229, 1), (4237, 0), (4253, 0), (4294, 0),
    (4296, 4), (4302, 1), (4447, 1), (4681, 0), (4686, 1), (4695, 0), (4697, 0), (4702, 1),
    (4745, 0), (4750, 1), (4785, 0), (4790, 1), (4799, 0), (4801, 0), (4806, 1), (4823, 0),
    (4881, 0), (4886, 1), (4955, 4), (4989, 2), (5018, 5), (5110, 1), (5118, 1), (5760, 0),
    (5789, 2), (5881, 6), (5906, 12), (5938, 2), (5943, 8), (5970, 13), (5997, 0), (6001, 14),
    (6068, 1), (6071, 6), (6086, 0), (6089, 10), (6109, 2), (6122, 5), (6138, 5), (6155, 4),
    (6170, 5), (6265, 6), (6277, 1), (6313, 0), (6315, 4), (6390, 9), (6431, 3), (6439, 1),
    (6444, 3), (6450, 0), (6457, 6), (6465, 2), (6510, 1), (6517, 10), (6572, 3), (6602, 5),
    (6619, 2), (6679, 1), (6683, 2), (6742, 0), (6744, 8), (6754, 0), (6757, 7), (6771, 12),
    (6794, 5), (6810, 5), (6830, 85), (6964, 9), (6978, 2), (6989, 0), (7019, 8), (7040, 1),
    (7074, 3), (7080, 5), (7142, 0), (7144, 1), (7149, 0), (7151, 12), (7212, 7), (7222, 4),
    (7242, 2), (7307, 4), (7355, 1), (7368, 10), (7380, 12), (7394, 6), (7405, 0), (7412, 0),
    (7416, 1), (7419, 4), (7616, 63), (7958, 1), (7966, 1), (8006, 1), (8014, 1), (8024, 0),
    (8026, 0), (8028, 0), (8030, 0), (8062, 1), (8117, 0), (8133, 0), (8148, 1), (8156, 0),
    (8176, 1), (8181, 0), (8191, 16), (8232, 7), (8287, 16), (8306, 1), (8335, 0), (8349, 2),
    (8386, 61), (8588, 3), (9258, 21), (9291, 20), (11124, 1), (11503, 2), (11508, 4), (11558, 0),
    (11560, 4), (11566, 1), (11624, 6), (11633, 14), (11671, 8), (11687, 0), (11695, 0), (11703, 0),
    (11711, 0), (11719, 0), (11727, 0), (11735, 0), (11743, 32), (11870, 33), (11930, 0),
    (12020, 11), (12246, 25), (12288, 0), (12330, 5), (12352, 0), (12439, 3), (12544, 4),
    (12592, 0), (12644, 0), (12687, 0), (12774, 8), (12831, 0), (42125, 2), (42183, 8), (42540, 19),
    (42607, 3), (42612, 9), (42654, 1), (42736, 1), (42744, 7), (42973, 19), (43010, 0), (43014, 0),
    (43019, 0), (43045, 1), (43052, 3), (43066, 5), (43128, 7), (43204, 9), (43226, 23), (43263, 0),
    (43302, 7), (43335, 10), (43347, 11), (43389, 5), (43443, 0), (43446, 3), (43452, 1),
    (43456, 0), (43470, 0), (43482, 3), (43493, 0), (43519, 0), (43561, 5), (43569, 1), (43573, 10),
    (43587, 0), (43596, 0), (43598, 1), (43610, 1), (43644, 0), (43696, 0), (43698, 2), (43703, 1),
    (43710, 1), (43713, 0), (43715, 23), (43756, 1), (43766, 10), (43783, 1), (43791, 1),
    (43799, 8), (43815, 0), (43823, 0), (43884, 3), (44005, 0), (44008, 0), (44013, 2), (44026, 5),
    (55204, 11), (55239, 3), (55292, 8451), (64110, 1), (64218, 37), (64263, 11), (64280, 4),
    (64286, 0), (64311, 0), (64317, 0), (64319, 0), (64322, 0), (64325, 0), (64976, 31),
    (65024, 15), (65050, 21), (65107, 0), (65127, 0), (65132, 3), (65141, 0), (65277, 3),
    (65440, 0), (65471, 2), (65480, 1), (65488, 1), (65496, 1), (65501, 2), (65511, 0), (65519, 12),
    (65534, 1), (65548, 0), (65575, 0), (65595, 0), (65598, 0), (65614, 1), (65630, 33), (65787, 4),
    (65795, 3), (65844, 2), (65935, 0), (65949, 2), (65953, 46), (66045, 130), (66205, 2),
    (66257, 15), (66300, 3), (66340, 8), (66379, 4), (66422, 9), (66462, 0), (66500, 3),
    (66518, 41), (66718, 1), (66730, 5), (66772, 3), (66812, 3), (66856, 7), (66916, 10),
    (66939, 0), (66955, 0), (66963, 0), (66966, 0), (66978, 0), (66994, 0), (67002, 0), (67005, 2),
    (67060, 11), (67383, 8), (67414, 9), (67432, 23), (67462, 0), (67505, 0), (67515, 68),
    (67590, 1), (67593, 0), (67638, 0), (67641, 2), (67645, 1), (67670, 0), (67743, 7), (67760, 47),
    (67827, 0), (67830, 4), (67868, 2), (67898, 4), (67930, 37), (68024, 3), (68048, 1),
    (68097, 14), (68116, 0), (68120, 0), (68150, 9), (68169, 6), (68185, 6), (68256, 31),
    (68325, 5), (68343, 8), (68406, 2), (68438, 1), (68467, 4), (68498, 6), (68509, 11),
    (68528, 79), (68681, 54), (68787, 12), (68851, 6), (68900, 11), (68922, 5), (68966, 7),
    (68998, 7), (69008, 207), (69247, 0), (69290, 2), (69294, 1), (69298, 15), (69320, 7),
    (69337, 38), (69416, 7), (69446, 10), (69466, 21), (69506, 3), (69514, 37), (69580, 19),
    (69623, 8), (69633, 0), (69688, 14), (69710, 3), (69744, 0), (69747, 1), (69750, 11),
    (69811, 3), (69817, 1), (69821, 0), (69826, 13), (69865, 6), (69882, 8), (69927, 4), (69933, 8),
    (69960, 7), (70003, 0), (70007, 10), (70070, 8), (70080, 0), (70089, 3), (70095, 0), (70112, 0),
    (70133, 10), (70162, 0), (70191, 2), (70196, 3), (70206, 0), (70209, 62), (70279, 0),
    (70281, 0), (70286, 0), (70302, 0), (70314, 5), (70367, 0), (70371, 12), (70394, 7), (70404, 0),
    (70413, 1), (70417, 1), (70441, 0), (70449, 0), (70452, 0), (70458, 2), (70462, 0), (70464, 0),
    (70469, 1), (70473, 1), (70477, 2), (70481, 11), (70500, 27), (70538, 0), (70540, 1),
    (70543, 0), (70582, 0), (70584, 0), (70587, 14), (70603, 0), (70606, 2), (70610, 0), (70614, 0),
    (70617, 38), (70712, 7), (70722, 2), (70726, 0), (70748, 0), (70750, 0), (70754, 29),
    (70832, 0), (70835, 5), (70842, 0), (70845, 0), (70847, 1), (70850, 1), (70856, 7),
    (70874, 165), (71087, 0), (71090, 5), (71100, 1), (71103, 1), (71132, 35), (71219, 7),
    (71229, 0), (71231, 1), (71237, 10), (71258, 5), (71277, 18), (71339, 0), (71341, 0),
    (71344, 7), (71354, 5), (71370, 5), (71396, 27), (71451, 2), (71455, 0), (71458, 3), (71463, 8),
    (71495, 184), (71727, 8), (71737, 1), (71740, 99), (71923, 11), (71943, 1), (71946, 1),
    (71956, 0), (71959, 0), (71984, 0), (71990, 0), (71993, 5), (72003, 0), (72007, 8), (72026, 69),
    (72104, 1), (72148, 7), (72160, 0), (72165, 26), (72193, 9), (72243, 5), (72251, 3), (72263, 8),
    (72273, 5), (72281, 2), (72330, 12), (72344, 1), (72355, 12), (72441, 6), (72458, 86),
    (72546, 2), (72550, 0), (72552, 87), (72674, 13), (72698, 5), (72713, 0), (72752, 13),
    (72767, 0), (72774, 9), (72813, 2), (72848, 24), (72874, 6), (72882, 1), (72885, 74),
    (72967, 0), (72970, 0), (73009, 20), (73031, 8), (73050, 5), (73062, 0), (73065, 0), (73103, 3),
    (73109, 0), (73111, 0), (73113, 6), (73130, 5), (73180, 3), (73194, 245), (73459, 1),
    (73465, 8), (73489, 0), (73526, 7), (73536, 2), (73562, 85), (73649, 14), (73714, 12),
    (74650, 101), (74863, 0), (74869, 10), (75076, 2635), (77811, 12), (78896, 16), (78919, 24),
    (82939, 4), (83527, 6840), (90398, 11), (90413, 2), (90426, 1733), (92729, 6), (92767, 0),
    (92778, 3), (92863, 0), (92874, 5), (92910, 6), (92918, 9), (92976, 6), (92998, 9), (93018, 0),
    (93026, 0), (93048, 4), (93072, 431), (93562, 197), (93851, 4), (93881, 1), (93908, 43),
    (94027, 4), (94088, 10), (94112, 63), (94180, 13), (94199, 8), (101590, 40), (101663, 96),
    (101875, 8700), (110580, 0), (110588, 0), (110591, 0), (110883, 14), (110899, 28), (110931, 1),
    (110934, 13), (110952, 7), (111356, 2307), (113771, 4), (113789, 2), (113801, 6), (113818, 1),
    (113821, 1), (113824, 3935), (118013, 2), (118452, 5), (118481, 14), (118513, 94), (118724, 59),
    (119030, 9), (119079, 1), (119141, 4), (119149, 21), (119173, 6), (119210, 3), (119275, 20),
    (119362, 2), (119366, 121), (119508, 11), (119540, 11), (119639, 8), (119673, 134), (119893, 0),
    (119965, 0), (119968, 1), (119971, 1), (119975, 1), (119981, 0), (119994, 0), (119996, 0),
    (120004, 0), (120070, 0), (120075, 1), (120085, 0), (120093, 0), (120122, 0), (120127, 0),
    (120133, 0), (120135, 2), (120145, 0), (120486, 1), (120780, 1), (121344, 54), (121403, 49),
    (121461, 0), (121476, 0), (121484, 1139), (122655, 5), (122667, 260), (122990, 145),
    (123181, 9), (123198, 1), (123210, 3), (123216, 319), (123566, 17), (123628, 3), (123642, 4),
    (123648, 463), (124140, 3), (124154, 213), (124398, 1), (124411, 3), (124416, 191), (124639, 0),
    (124643, 0), (124646, 0), (124654, 1), (124661, 8), (124672, 223), (124903, 0), (124908, 0),
    (124911, 0), (124927, 0), (125125, 1), (125136, 47), (125252, 6), (125260, 3), (125274, 3),
    (125280, 784), (126133, 75), (126270, 193), (126468, 0), (126496, 0), (126499, 0), (126501, 1),
    (126504, 0), (126515, 0), (126520, 0), (126522, 0), (126524, 5), (126531, 3), (126536, 0),
    (126538, 0), (126540, 0), (126544, 0), (126547, 0), (126549, 1), (126552, 0), (126554, 0),
    (126556, 0), (126558, 0), (126560, 0), (126563, 0), (126565, 1), (126571, 0), (126579, 0),
    (126584, 0), (126589, 0), (126591, 0), (126602, 0), (126620, 4), (126628, 0), (126634, 0),
    (126652, 51), (126706, 269), (127020, 3), (127124, 11), (127151, 1), (127168, 0), (127184, 0),
    (127222, 9), (127406, 55), (127491, 12), (127548, 3), (127561, 6), (127570, 13), (127590, 153),
    (128729, 2), (128749, 2), (128765, 2), (128986, 5), (129004, 3), (129009, 14), (129036, 3),
    (129096, 7), (129114, 5), (129160, 7), (129198, 1), (129212, 3), (129218, 13), (129241, 38),
    (129624, 7), (129646, 1), (129661, 2), (129675, 2), (129735, 0), (129737, 3), (129757, 1),
    (129771, 3), (129785, 6), (129939, 0), (130043, 1028), (173792, 31), (178206, 1), (183982, 1),
    (191457, 14), (192094, 2465), (195102, 1505), (201547, 4), (210042, 904069) ]

/-- Whether a character does not print by itself. -/
def isHidden (c : Char) : Bool :=
  if c.toNat < 127 then decide (c.toNat < 32)
  else hiddenRanges.any fun (first, more) => first ≤ c.toNat && c.toNat ≤ first + more

end RangeTyping.Text
